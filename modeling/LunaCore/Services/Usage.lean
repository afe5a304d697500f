import Mathlib.Algebra.BigOperators.Group.List.Basic
import Mathlib.Data.List.Basic
import Mathlib.Tactic.Ring

/-! The usage ledger: what a row records, and what it costs when it is read.

    prices     NUMERIC(12, 4)   in ten-thousandths of a dollar per million tokens
    multiple   NUMERIC(8, 4)    in ten-thousandths
    cost       their product has the eight places of the cast, so nothing is rounded: with the
               million it is a number of 10⁻¹⁴ dollars

    A row is charged at the rates of its model, all of them times one multiple. Rates charge
    token by token, so a sum of counts costs the sum; the multiple does not, as it looks at the sum
    of the prompts. -/

namespace LunaCore.Services

/-- `LLMPrice`. -/
structure LLMPrice where
  model : String
  inputPerMtok : ℤ
  outputPerMtok : ℤ
  cacheReadPerMtok : Option ℤ
  cacheWritePerMtok : Option ℤ
  audioInputPerMtok : Option ℤ
  longContextThreshold : Option ℤ
  longContextMultiplier : Option ℤ
  deriving DecidableEq

/-- `LLMUsage`, as far as its cost goes. -/
structure LLMUsage where
  model : String
  inputTokens : ℕ
  outputTokens : ℕ
  cachedInputTokens : Option ℕ
  cacheWriteInputTokens : Option ℕ
  audioInputTokens : Option ℕ
  totalTokens : ℕ
  deriving DecidableEq

/-- The highest price of each kind of token. -/
structure Dearest where
  input : ℤ
  output : ℤ
  cacheRead : ℤ
  cacheWrite : ℤ
  audio : ℤ
  deriving DecidableEq

/-- A provider's usage object, OpenAI-shaped. -/
structure ProviderUsage where
  promptTokens : ℕ
  completionTokens : ℕ
  totalTokens : ℕ
  cachedTokens : Option ℕ
  cacheWriteTokens : Option ℕ
  deriving DecidableEq

/-- `record_usage`. -/
def recordUsage (model : String) (usage : ProviderUsage) : LLMUsage where
  model := model
  inputTokens := usage.promptTokens
  outputTokens := usage.completionTokens
  cachedInputTokens := usage.cachedTokens
  cacheWriteInputTokens := usage.cacheWriteTokens
  audioInputTokens := none
  totalTokens := usage.totalTokens

/-- `func.max` of a column. -/
def highest (column : LLMPrice → ℤ) (first : LLMPrice) (rest : List LLMPrice) : ℤ :=
  rest.foldl (fun best price => max best (column price)) (column first)

/-- `_dearest`. -/
def dearest : List LLMPrice → Option Dearest
  | [] => none
  | first :: rest => some {
      input := highest (·.inputPerMtok) first rest
      output := highest (·.outputPerMtok) first rest
      cacheRead := highest (fun p => p.cacheReadPerMtok.getD p.inputPerMtok) first rest
      cacheWrite := highest (fun p => p.cacheWritePerMtok.getD p.inputPerMtok) first rest
      audio := highest (fun p => p.audioInputPerMtok.getD p.inputPerMtok) first rest }

/-- The long-context multiple of a prompt, 1 for a model that has none. -/
def tier (price : Option LLMPrice) (prompt : ℕ) : ℤ :=
  match price.bind (·.longContextThreshold) with
  | some threshold =>
    if threshold < prompt then (price.bind (·.longContextMultiplier)).getD 10000 else 10000
  | none => 10000

/-- `_cost_expr`, of a row joined to its model's price. -/
def costExpr (dearest : Dearest) (price : Option LLMPrice) (row : LLMUsage) : ℤ :=
  let input := price.map (·.inputPerMtok)
  let pIn := input.getD dearest.input
  let pOut := (price.map (·.outputPerMtok)).getD dearest.output
  let pRead := ((price.bind (·.cacheReadPerMtok)).or input).getD dearest.cacheRead
  let pWrite := ((price.bind (·.cacheWritePerMtok)).or input).getD dearest.cacheWrite
  let pAudio := ((price.bind (·.audioInputPerMtok)).or input).getD dearest.audio
  let read : ℤ := row.cachedInputTokens.getD 0
  let write : ℤ := row.cacheWriteInputTokens.getD 0
  let audio : ℤ := row.audioInputTokens.getD 0
  let plain := max (row.inputTokens - read - write - audio) 0
  let total := plain * pIn + read * pRead + write * pWrite + audio * pAudio + row.outputTokens * pOut
  total * tier price row.inputTokens

/-- The price a row is joined to. -/
def priceOf (prices : List LLMPrice) (model : String) : Option LLMPrice :=
  prices.find? (·.model = model)

/-- What a reader of the ledger makes of one row; nothing where no price is known. -/
def rowCost (prices : List LLMPrice) (row : LLMUsage) : Option ℤ :=
  (dearest prices).map fun d => costExpr d (priceOf prices row.model) row

/-! ### Rates -/

/-- Tokens by what they cost. -/
structure Tokens where
  input : ℕ
  read : ℕ
  write : ℕ
  output : ℕ
  deriving DecidableEq

def Tokens.prompt (k : Tokens) : ℕ := k.input + k.read + k.write

/-- What a token of each kind costs. -/
structure Rates where
  input : ℤ
  read : ℤ
  write : ℤ
  output : ℤ
  deriving DecidableEq

/-- What the tokens cost at these rates. -/
def Rates.charge (r : Rates) (k : Tokens) : ℤ :=
  k.input * r.input + k.read * r.read + k.write * r.write + k.output * r.output

/-- All rates times a multiple. -/
def Rates.times (r : Rates) (multiple : ℤ) : Rates :=
  ⟨r.input * multiple, r.read * multiple, r.write * multiple, r.output * multiple⟩

/-- The prices of a model, or the dearest where it has none. -/
def listedRates (dearest : Dearest) (price : Option LLMPrice) : Rates :=
  let input := price.map (·.inputPerMtok)
  { input := input.getD dearest.input
    read := ((price.bind (·.cacheReadPerMtok)).or input).getD dearest.cacheRead
    write := ((price.bind (·.cacheWritePerMtok)).or input).getD dearest.cacheWrite
    output := (price.map (·.outputPerMtok)).getD dearest.output }

/-- What a request with such a prompt pays for each token. -/
def promptRates (dearest : Dearest) (price : Option LLMPrice) (prompt : ℕ) : Rates :=
  (listedRates dearest price).times (tier price prompt)

theorem Rates.charge_times (r : Rates) (multiple : ℤ) (k : Tokens) :
    (r.times multiple).charge k = r.charge k * multiple := by
  simp only [Rates.charge, Rates.times]
  ring

/-- A usage that tells its cached tokens costs them at the rates of its prompt. -/
theorem costExpr_recorded (dearest : Dearest) (price : Option LLMPrice) (model : String)
    (k : Tokens) (total : ℕ) :
    costExpr dearest price
        (recordUsage model ⟨k.prompt, k.output, total, some k.read, some k.write⟩) =
      (promptRates dearest price k.prompt).charge k := by
  have hplain : max ((k.prompt : ℤ) - k.read - k.write - (0 : ℕ)) 0 = k.input := by
    rw [Tokens.prompt]
    omega
  rw [promptRates, Rates.charge_times]
  simp only [costExpr, recordUsage, Option.getD_some, Option.getD_none, hplain, Rates.charge,
    listedRates]
  ring

/-! ### Sums -/

def Tokens.total (ks : List Tokens) : Tokens :=
  ⟨(ks.map (·.input)).sum, (ks.map (·.read)).sum, (ks.map (·.write)).sum, (ks.map (·.output)).sum⟩

/-- Rates charge token by token. -/
theorem Rates.charge_total (r : Rates) (ks : List Tokens) :
    r.charge (Tokens.total ks) = (ks.map r.charge).sum := by
  induction ks with
  | nil => simp [Tokens.total, Rates.charge]
  | cons k ks ih =>
    rw [List.map_cons, List.sum_cons, ← ih]
    simp only [Tokens.total, List.map_cons, List.sum_cons, Rates.charge]
    push_cast
    ring

/-- Two sums differ by what their terms differ, and only where they do. -/
theorem sum_differing {α : Type*} (f g : α → ℤ) (p : α → Bool) (xs : List α)
    (h : ∀ x, p x = false → f x = g x) :
    ((xs.filter p).map fun x => f x - g x).sum = (xs.map f).sum - (xs.map g).sum := by
  induction xs with
  | nil => rfl
  | cons x xs ih =>
    rw [List.map_cons, List.map_cons, List.sum_cons, List.sum_cons]
    cases hp : p x with
    | true =>
      rw [List.filter_cons_of_pos hp, List.map_cons, List.sum_cons, ih]
      ring
    | false =>
      rw [List.filter_cons_of_neg (by simp [hp]), ih, h x hp]
      ring

end LunaCore.Services
