import LunaCore.Providers.Anthropic
import LunaCore.Schemes.Keyed
import LunaCore.Services.Usage

/-! What a turn of `AnthropicProvider.complete` costs.

    round 1    round 2    …   round n         usage added up, field by field
    model A    model B        model C         the last one is kept
                 └──────────────┴─▶  one ledger row: the sum, at the rates of C for that sum

    The rounds are requests of their own. The row charges each token at one rate, so it costs what
    the rounds cost as far as that is the rate of the token's own round. -/

namespace LunaCore.Providers.Anthropic
open LunaCore.Schemes LunaCore.Services

/-- What a final message tells of its cost: `model` and the items of `usage.model_dump()`, with no
    value where it is no int. -/
structure Served where
  model : String
  usage : List (String × Option ℕ)
  deriving DecidableEq

abbrev Counts := Table String ℕ

def addItem (usage : Counts) (item : String × Option ℕ) : Counts :=
  match item.2 with
  | none => usage
  | some value => usage.insert item.1 ((usage.lookup item.1).getD 0 + value)

/-- `add_usage`. -/
def addUsage (usage : Counts) (items : List (String × Option ℕ)) : Counts :=
  items.foldl addItem usage

/-- `int(usage.get(key) or 0)`. -/
def count (usage : Counts) (key : String) : ℕ := (usage.lookup key).getD 0

/-- `_anthropic_usage_shim`. -/
def usageShim (usage : Counts) : ProviderUsage :=
  let inputTokens := count usage "input_tokens"
  let cacheRead := count usage "cache_read_input_tokens"
  let cacheCreation := count usage "cache_creation_input_tokens"
  let outputTokens := count usage "output_tokens"
  let promptTokens := inputTokens + cacheRead + cacheCreation
  { promptTokens := promptTokens
    completionTokens := outputTokens
    totalTokens := promptTokens + outputTokens
    cachedTokens := some cacheRead
    cacheWriteTokens := some cacheCreation }

/-- `turn.model or model`. -/
def named (model : String) (served : Option String) : String :=
  match served with
  | none => model
  | some served => if served = "" then model else served

/-- A turn with its bill. -/
structure Billed where
  completion : Completion
  usage : Counts
  model : Option String
  row : Option LLMUsage
  /-- For proofs only: the rounds that came to a final message. -/
  rounds : List Served

def Billed.created : Billed := ⟨.created, ∅, none, none, []⟩

/-- The row of the turn, unless it has no usage. -/
def Billed.ledgerRow (model : String) (s : Billed) : Option LLMUsage :=
  if s.usage.entries = [] then none
  else some (recordUsage (named model s.model) (usageShim s.usage))

/-- A step of `complete`; only a finish looks at what was served. -/
def billedStep (cfg : Settings) (model : String) (s : Billed) (a : Action × Served) :
    Option Billed :=
  (completionStep cfg s.completion a.1).map fun completion => match a.1 with
    | .finish _ _ => { s with
        completion := completion
        usage := addUsage s.usage a.2.usage
        model := some a.2.model
        rounds := s.rounds ++ [a.2] }
    | .completed => { s with completion := completion, row := s.ledgerRow model }
    | _ => { s with completion := completion }

/-! ### What a round costs -/

/-- The counts by what they cost. -/
def tokens (usage : Counts) : Tokens where
  input := count usage "input_tokens"
  read := count usage "cache_read_input_tokens"
  write := count usage "cache_creation_input_tokens"
  output := count usage "output_tokens"

/-- The tokens of one round. -/
def Served.tokens (r : Served) : Tokens := Anthropic.tokens (addUsage ∅ r.usage)

section Rates

variable (prices : List LLMPrice) (model : String) (d : Dearest)

/-- The rates of a round as a request of its own. -/
def ownRates (r : Served) : Rates :=
  promptRates d (priceOf prices (named model (some r.model))) r.tokens.prompt

/-- The rates of one request with the tokens of all rounds, served by the last one's model. -/
def turnRates (rounds : List Served) : Rates :=
  promptRates d (priceOf prices (named model (rounds.getLast?.map (·.model))))
    (Tokens.total (rounds.map Served.tokens)).prompt

/-- What the rounds cost, each as a request of its own. -/
def roundsCost (rounds : List Served) : ℤ :=
  (rounds.map fun r => (ownRates prices model d r).charge r.tokens).sum

/-- The rounds that have other rates than the turn. -/
def misrated (rounds : List Served) : List Served :=
  rounds.filter fun r => ownRates prices model d r ≠ turnRates prices model d rounds

/-- By how much the misrated rounds cost more in the turn than on their own. -/
def overcharge (rounds : List Served) : ℤ :=
  ((misrated prices model d rounds).map fun r =>
    (turnRates prices model d rounds).charge r.tokens -
      (ownRates prices model d r).charge r.tokens).sum

end Rates

/-- The row costs what the rounds cost. -/
def Additive (prices : List LLMPrice) (model : String) (a : Action × Served) (t : Billed) : Prop :=
  a.1 = .completed → ∀ row, t.row = some row →
    rowCost prices row = (dearest prices).map fun d => roundsCost prices model d t.rounds

/-- When a row is written, no round has other rates than the turn, or what those cost too much and
    too little evens out. -/
def Evened (prices : List LLMPrice) (model : String) (s : Billed) (a : Action × Served) : Prop :=
  a.1 = .completed → (s.ledgerRow model).isSome = true →
    ∀ d, dearest prices = some d → overcharge prices model d s.rounds = 0

/-! ### The bill along a turn -/

theorem count_addItem (usage : Counts) (item : String × Option ℕ) (key : String) :
    count (addItem usage item) key =
      count usage key + if key = item.1 then item.2.getD 0 else 0 := by
  obtain ⟨k, value⟩ := item
  cases value with
  | none => simp [addItem, count]
  | some value =>
    by_cases hkey : key = k
    · subst hkey
      simp [addItem, count]
    · simp [addItem, count, AList.lookup_insert_ne hkey, hkey]

theorem count_empty (key : String) : count ∅ key = 0 := rfl

/-- What a round adds does not depend on what is there. -/
theorem count_addUsage (items : List (String × Option ℕ)) : ∀ (usage : Counts) (key : String),
    count (addUsage usage items) key = count usage key + count (addUsage ∅ items) key := by
  induction items with
  | nil => simp [addUsage, count]
  | cons item items ih =>
    intro usage key
    have hall := ih (addItem usage item) key
    have hown := ih (addItem ∅ item) key
    rw [count_addItem] at hall hown
    rw [count_empty] at hown
    simp only [addUsage, List.foldl_cons] at hall hown ⊢
    omega

/-- The turn has the tokens of its rounds and the model of the last one. -/
structure Summed (s : Billed) : Prop where
  usage : tokens s.usage = Tokens.total (s.rounds.map Served.tokens)
  model : s.model = s.rounds.getLast?.map (·.model)

theorem Summed.finish {s : Billed} {completion : Completion} {r : Served} (hs : Summed s) :
    Summed { s with
      completion := completion
      usage := addUsage s.usage r.usage
      model := some r.model
      rounds := s.rounds ++ [r] } := by
  refine ⟨?_, by simp⟩
  have husage := hs.usage
  simp only [tokens, Tokens.total, Tokens.mk.injEq] at husage ⊢
  obtain ⟨hinput, hread, hwrite, houtput⟩ := husage
  simp only [List.map_append, List.map_cons, List.map_nil, List.sum_append, List.sum_cons,
    List.sum_nil, add_zero, count_addUsage r.usage s.usage, hinput, hread, hwrite, houtput]
  exact ⟨rfl, rfl, rfl, rfl⟩

theorem summed_step {cfg : Settings} {model : String} {s t : Billed} {a : Action × Served}
    (hs : Summed s) (h : billedStep cfg model s a = some t) : Summed t := by
  obtain ⟨completion, _, rfl⟩ := Option.map_eq_some_iff.mp h
  split
  · exact hs.finish
  · exact ⟨hs.usage, hs.model⟩
  · exact ⟨hs.usage, hs.model⟩

/-- The row of a turn charges the tokens of its rounds at the rates of the turn. -/
theorem rowCost_ledgerRow {prices : List LLMPrice} {model : String} {s : Billed} {row : LLMUsage}
    (hs : Summed s) (hrow : s.ledgerRow model = some row) :
    rowCost prices row = (dearest prices).map fun d =>
      (s.rounds.map fun r => (turnRates prices model d s.rounds).charge r.tokens).sum := by
  obtain rfl : recordUsage (named model s.model) (usageShim s.usage) = row := by
    unfold Billed.ledgerRow at hrow
    split at hrow
    · cases hrow
    · exact Option.some.inj hrow
  unfold rowCost
  congr 1
  funext d
  have hcost := costExpr_recorded d (priceOf prices (named model s.model)) (named model s.model)
    (tokens s.usage) (usageShim s.usage).totalTokens
  refine hcost.trans ?_
  rw [hs.usage, hs.model, Rates.charge_total, List.map_map]
  rfl

/-- What a turn is charged more than its rounds, is charged for the misrated ones. -/
theorem overcharge_eq (prices : List LLMPrice) (model : String) (d : Dearest)
    (rounds : List Served) : overcharge prices model d rounds =
      (rounds.map fun r => (turnRates prices model d rounds).charge r.tokens).sum -
        roundsCost prices model d rounds := by
  refine sum_differing _ _ _ _ fun r hr => ?_
  rw [not_ne_iff.mp (of_decide_eq_false hr)]

theorem additive_iff {cfg : Settings} {prices : List LLMPrice} {model : String} {s t : Billed}
    {a : Action × Served} (hs : Summed s) (h : billedStep cfg model s a = some t) :
    Additive prices model a t ↔ Evened prices model s a := by
  refine forall_congr' fun ha => ?_
  have hrow : t.row = s.ledgerRow model ∧ t.rounds = s.rounds := by
    obtain ⟨completion, _, rfl⟩ := Option.map_eq_some_iff.mp h
    rw [ha]
    exact ⟨rfl, rfl⟩
  rw [hrow.1, hrow.2]
  cases hledger : s.ledgerRow model with
  | none => simp
  | some row =>
    have hcost : rowCost prices row = _ := rowCost_ledgerRow hs hledger
    cases hdearest : dearest prices with
    | none => simp [rowCost, hdearest]
    | some d =>
      rw [hdearest] at hcost
      simp only [Option.some.injEq, forall_eq', Option.isSome_some, hcost, Option.map_some,
        forall_const, overcharge_eq, sub_eq_zero]

/-- EXACT CONDITION: the row of a turn costs what its rounds cost as requests of their own just
    when no round has other rates than the turn, or the differences of those even out. -/
theorem billed_run_iff (cfg : Settings) (prices : List LLMPrice) (model : String)
    (run : List (Action × Served)) :
    EveryStep (billedStep cfg model) (fun _ a t => Additive prices model a t) .created run ↔
      Guarded (billedStep cfg model) (Evened prices model) .created run :=
  everyStep_iff_guarded (P := fun _ a t => Additive prices model a t)
    (fun _ _ _ hs _ h => summed_step hs h) (fun _ _ _ hs h => additive_iff hs h) ⟨rfl, rfl⟩

/-- A turn of one round is charged at that round's rates. -/
theorem misrated_single (prices : List LLMPrice) (model : String) (d : Dearest) (r : Served) :
    misrated prices model d [r] = [] := by
  have hprompt : (Tokens.total [r.tokens]).prompt = r.tokens.prompt := by
    simp [Tokens.total, Tokens.prompt]
  simp [misrated, turnRates, ownRates, hprompt]

/-! ### A turn paused once -/

/-- A model that doubles its prices past 200000 tokens. -/
def doubling : LLMPrice := ⟨"m", 30000, 150000, none, none, none, some 200000, some 20000⟩

/-- Two rounds of 150000 tokens each. -/
def pausedOnce : List (Action × Served) :=
  let served : Served := ⟨"m", [("input_tokens", some 150000), ("output_tokens", some 100)]⟩
  [(.finish .pauseTurn [], served), (.finish .endTurn [.text "found"], served),
    (.saveMessage, served)]

/-- Neither prompt passes the threshold, and both are charged double. -/
theorem doubled_by_the_pause :
    ¬ ∀ (cfg : Settings) (prices : List LLMPrice) (model : String) (run : List (Action × Served)),
      EveryStep (billedStep cfg model) (fun _ a t => Additive prices model a t) .created run := by
  intro h
  have hstep := EveryStep.at (h ⟨2, 5⟩ [doubling] "m" (pausedOnce ++ [(.completed, ⟨"", []⟩)]))
    (rfl : runFrom (billedStep ⟨2, 5⟩ "m") .created pausedOnce = some _)
    (rfl : billedStep ⟨2, 5⟩ "m" _ (.completed, ⟨"", []⟩) = some _)
  have hcost := hstep rfl _ rfl
  revert hcost
  decide +kernel

end LunaCore.Providers.Anthropic
