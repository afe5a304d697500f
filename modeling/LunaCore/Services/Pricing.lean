import Mathlib.Data.List.Infix
import Mathlib.Data.Rat.Lemmas
import LunaCore.Chat.AutoTitle
import LunaCore.Providers.LeakedTranscript
import LunaCore.Schemes.Fallible
import LunaCore.Schemes.Filing

/-! `parse_anthropic_pricing`: the published price list, read from a page of markdown.

    | Model            | Base input tokens | …     the first line that is such a head
    | :--------------- | :---------------- | …     passed over, whatever it is
    | Opus             | $4 / MTok         | …     a row a model
    | Haiku (up to N)  | $0.10 / MTok      | …     or two: the figures of the first,
    | Haiku (over N)   | $0.50 / MTok      | …     and how many times as much past N

    A row without all the columns is passed over, a row without a figure raises. -/

namespace LunaCore.Services.Pricing
open LunaCore.Values LunaCore.Schemes
open LunaCore.Providers (afterLiteral removeTags)
open LunaCore.Chat.AutoTitle (isLineBreak)

/-! ### Text -/

/-- `text.strip(chars)`. -/
def stripOf (chars : Char → Bool) (text : List Char) : List Char :=
  ((text.dropWhile chars).reverse.dropWhile chars).reverse

/-- `text.splitlines()`; the flag is up behind a carriage return, the line is in reverse. -/
def linesFrom : Bool → List Char → List Char → List (List Char)
  | _, line, [] => if line = [] then [] else [line.reverse]
  | afterReturn, line, c :: text =>
    if afterReturn ∧ c = '\n' then linesFrom false line text
    else if isLineBreak c then line.reverse :: linesFrom (c = '\r') [] text
    else linesFrom false (c :: line) text

/-- `text.lower()`, as far as it makes a letter of ASCII. -/
def lower (text : List Char) : List Char := text.flatMap fun c =>
  if c.toNat = 0x130 then ['i', Char.ofNat 0x307] else if c.toNat = 0x212A then ['k']
  else [c.toLower]

/-- `_LINK` at the start of a text: its label, and how long it is. -/
def link : List Char → Option (List Char × ℕ)
  | '[' :: text => match text.dropWhile (· ≠ ']') with
    | ']' :: '(' :: target => match target.dropWhile (· ≠ ')') with
      | ')' :: after => some (text.takeWhile (· ≠ ']'), text.length + 1 - after.length)
      | _ => none
    | _ => none
  | _ => none

/-- `_LINK.sub(r"\1", text)`; `skip` counts what is left of a link. -/
def labels : ℕ → List Char → List Char
  | _, [] => []
  | skip + 1, _ :: text => labels skip text
  | 0, c :: text => match link (c :: text) with
    | some (label, n) => label ++ labels (n - 1) text
    | none => c :: labels 0 text

/-- `_TAGS` at the start of a text: how long it is. -/
def tag : List Char → Option ℕ
  | '<' :: text => match text.dropWhile (· ≠ '>') with
    | '>' :: after => if text.head? = some '>' then none else some (text.length + 1 - after.length)
    | _ => none
  | _ => none

/-- The same of `\s*\([^)]*\)`, a remark in parentheses. -/
def remark (text : List Char) : Option ℕ :=
  match text.dropWhile isSpace with
  | '(' :: rest => match rest.dropWhile (· ≠ ')') with
    | ')' :: after => some (text.length - after.length)
    | _ => none
  | _ => none

/-- `_cell`. -/
def cell (text : List Char) : List Char := stripOf isSpace (removeTags tag 0 (labels 0 text))

def natOf (digits : List Char) : ℕ := digits.foldl (fun n c => 10 * n + (c.toNat - 48)) 0

/-- The amount at the start of a text. -/
def amount (text : List Char) : Option ℚ :=
  let whole := text.takeWhile (·.isDigit)
  if whole = [] then none else match text.dropWhile (·.isDigit) with
    | '.' :: rest =>
      -- without a digit behind it the point ends the amount
      let fraction := rest.takeWhile (·.isDigit)
      some (mkRat (natOf (whole ++ fraction)) (10 ^ fraction.length))
    | _ => some (natOf whole)

/-- `_MONEY.search`. -/
def firstAmount : List Char → Option ℚ
  | [] => none
  | c :: text => (if c = '$' then amount (text.dropWhile isSpace) else none).or (firstAmount text)

/-- Which prompts a row is for. -/
inductive Bound where
  | upTo
  | past
  deriving DecidableEq

/-- `_TIER` at the start of a text. -/
def tier (text : List Char) : Option (Bound × ℕ) :=
  (afterLiteral "(for prompts " text).bind fun rest =>
    (((afterLiteral "up to " rest).map (Bound.upTo, ·)).or
      ((afterLiteral "over " rest).map (Bound.past, ·))).bind fun (bound, rest) =>
      let digit := fun c : Char => c.isDigit || c = ','
      if rest.head?.any (·.isDigit) then
        (afterLiteral " tokens)" (rest.dropWhile digit)).map fun _ =>
          (bound, natOf ((rest.takeWhile digit).filter (· ≠ ',')))
      else none

/-- `_TIER.search`. -/
def firstTier : List Char → Option (Bound × ℕ)
  | [] => none
  | c :: text => (tier (c :: text)).or (firstTier text)

/-! ### The page -/

/-- What `PricingParseError` says. -/
inductive PricingParseError where
  /-- `no model price table found` -/
  | noTable
  /-- `no … column` -/
  | noColumn (name : String)
  /-- `no price in …` -/
  | noPrice (text : List Char)
  /-- `only … models read from the price list` -/
  | fewModels (count : ℕ)
  deriving DecidableEq

/-- The cells of a row, as they stand. -/
abbrev Row := List (List Char)

def cells (line : List Char) : Row := (stripOf (· = '|') (stripOf isSpace line)).splitOn '|'

def isModelHeader (header : Row) : Bool :=
  header.contains "base input tokens".toList && header.contains "output tokens".toList &&
    header.any fun h => decide ("cache hits".toList <:+: h)

/-- `_model_table`: the header and the rows. -/
def modelTable : List (List Char) → Except PricingParseError (Row × List Row)
  | [] => .error .noTable
  | line :: lines =>
    let header := (cells line).map fun c => lower (cell c)
    if isModelHeader header then
      .ok (header, ((lines.drop 1).takeWhile fun row =>
        (stripOf isSpace row).head? = some '|').map cells)
    else modelTable lines

/-- `col`. -/
def column (header : Row) (name : String) : Except PricingParseError ℕ :=
  match header.findIdx? (name.toList.isPrefixOf ·) with
  | some i => .ok i
  | none => .error (.noColumn name)

structure Columns where
  input : ℕ
  cacheWrite : ℕ
  cacheRead : ℕ
  output : ℕ
  deriving DecidableEq

structure Page where
  columns : Columns
  rows : List Row
  deriving DecidableEq

/-- The table of a page, with where its figures are. -/
def pageOf (markdown : List Char) : Except PricingParseError Page :=
  (modelTable (linesFrom false [] markdown)).bind fun (header, rows) =>
    (column header "base input").bind fun input =>
      (column header "5m cache writes").bind fun cacheWrite =>
        (column header "cache hits").bind fun cacheRead =>
          (column header "output").map fun output =>
            ⟨⟨input, cacheWrite, cacheRead, output⟩, rows⟩

/-! ### The prices -/

structure PublishedPrice where
  input : ℚ
  cacheWrite : ℚ
  cacheRead : ℚ
  output : ℚ
  longContextThreshold : Option ℕ
  longContextMultiplier : Option ℚ
  deriving DecidableEq

/-- `_money`. -/
def money (text : List Char) : Except PricingParseError ℚ :=
  match firstAmount (removeTags tag 0 text) with
  | some figure => .ok figure
  | none => .error (.noPrice text)

/-- What is read from a row. -/
structure Entry where
  name : List Char
  tier : Option (Bound × ℕ)
  price : PublishedPrice
  deriving DecidableEq

def rawName (row : Row) : List Char := labels 0 (row.headD [])

def nameOf (row : Row) : List Char := stripOf isSpace (removeTags remark 0 (cell (rawName row)))

def tierOf (row : Row) : Option (Bound × ℕ) := firstTier (rawName row)

/-- The row has all the columns. -/
def Columns.Within (columns : Columns) (row : Row) : Prop :=
  max (max columns.input columns.cacheWrite) (max columns.cacheRead columns.output) < row.length

instance (columns : Columns) (row : Row) : Decidable (columns.Within row) :=
  inferInstanceAs (Decidable (_ < _))

def entryOf (columns : Columns) (row : Row) : Except PricingParseError Entry :=
  (money (row.getD columns.input [])).bind fun input =>
    (money (row.getD columns.cacheWrite [])).bind fun cacheWrite =>
      (money (row.getD columns.cacheRead [])).bind fun cacheRead =>
        (money (row.getD columns.output [])).map fun output =>
          ⟨nameOf row, tierOf row, ⟨input, cacheWrite, cacheRead, output, none, none⟩⟩

/-- The two tables of the loop: the first price of a model, and the last `over` row of one. -/
structure Books where
  base : Table (List Char) PublishedPrice
  past : Table (List Char) (ℕ × ℚ)

def Books.file (books : Books) (entry : Entry) : Books :=
  match entry.tier with
  | some (.past, n) => { books with past := books.past.insert entry.name (n, entry.price.input) }
  | _ => { books with base := setDefault books.base entry.name entry.price }

/-- The loop over the rows. -/
def readRows (columns : Columns) : Books → List Row → Except PricingParseError Books
  | books, [] => .ok books
  | books, row :: rows =>
    if columns.Within row then
      (entryOf columns row).bind fun entry => readRows columns (books.file entry) rows
    else readRows columns books rows

/-- A price with the multiple past its threshold; of nothing there is no multiple. -/
def PublishedPrice.withPast (p : PublishedPrice) (past : ℕ × ℚ) : PublishedPrice :=
  if p.input = 0 then p
  else { p with longContextThreshold := past.1, longContextMultiplier := past.2 / p.input }

/-- `parse_anthropic_pricing`. -/
def parseAnthropicPricing (markdown : List Char) :
    Except PricingParseError (Table (List Char) PublishedPrice) :=
  (pageOf markdown).bind fun page =>
    (readRows page.columns ⟨∅, ∅⟩ page.rows).bind fun books =>
      let prices := revise PublishedPrice.withPast books.base books.past
      if prices.entries.length < 3 then .error (.fewModels prices.entries.length) else .ok prices

end LunaCore.Services.Pricing
