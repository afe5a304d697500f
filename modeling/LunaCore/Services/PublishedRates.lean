import Mathlib.Data.List.Forall2
import LunaCore.Providers.LeakGuard
import LunaCore.Schemes.Splice
import LunaCore.Services.Charges
import LunaCore.Services.Pricing

/-! From the published list to what a token costs.

    page ─ parse ─▶ PublishedPrice ─ set_price ─▶ LLMPrice ─ _cost_expr ─▶ a rate for each kind

    A model has one multiple, the ratio of its input figures, and past the threshold every kind is
    charged at it. So the input figures are charged as published, and the others as long as the
    row past N is the row up to N multiplied. Amounts are exact here: no column rounds them. -/

namespace LunaCore.Services.Pricing
open LunaCore.Schemes
open LunaCore.Values (isSpace)
open LunaCore.Providers (afterLiteral afterLiteral_append dropWhile_stop foldCase_fixed removeTags
  removeTags_skip)

/-! ### The price row and the cost -/

/-- `LLMPrice`, before its columns round. -/
structure LLMPrice where
  model : String
  inputPerMtok : ℚ
  outputPerMtok : ℚ
  cacheReadPerMtok : Option ℚ
  cacheWritePerMtok : Option ℚ
  audioInputPerMtok : Option ℚ
  longContextThreshold : Option ℤ
  longContextMultiplier : Option ℚ
  source : String
  updatedAt : ℕ
  deriving DecidableEq

/-- `set_price`: what the upsert leaves; only the audio price is not touched. -/
def setPrice (row : Option LLMPrice) (model : String) (price : PublishedPrice) (source : String)
    (now : ℕ) : LLMPrice where
  model := model
  inputPerMtok := price.input
  outputPerMtok := price.output
  cacheReadPerMtok := some price.cacheRead
  cacheWritePerMtok := some price.cacheWrite
  audioInputPerMtok := row.bind (·.audioInputPerMtok)
  longContextThreshold := price.longContextThreshold.map fun n : ℕ => (n : ℤ)
  longContextMultiplier := price.longContextMultiplier
  source := source
  updatedAt := now

/-- The long-context multiple of a prompt. -/
def tierFor (price : Option LLMPrice) (prompt : ℤ) : ℚ :=
  match price.bind (·.longContextThreshold) with
  | some threshold =>
    if threshold < prompt then (price.bind (·.longContextMultiplier)).getD 1 else 1
  | none => 1

/-- `_cost_expr`, with the dearest rate of each kind. -/
def costExpr (dearest : TokenKind → ℚ) (price : Option LLMPrice) (row : CountedUsage) : ℚ :=
  let input := price.map (·.inputPerMtok)
  let pIn := input.getD (dearest .plain)
  let pOut := (price.map (·.outputPerMtok)).getD (dearest .output)
  let pRead := ((price.bind (·.cacheReadPerMtok)).or input).getD (dearest .cacheRead)
  let pWrite := ((price.bind (·.cacheWritePerMtok)).or input).getD (dearest .cacheWrite)
  let pAudio := ((price.bind (·.audioInputPerMtok)).or input).getD (dearest .audio)
  let read := row.cachedInputTokens.getD 0
  let write := row.cacheWriteInputTokens.getD 0
  let audio := row.audioInputTokens.getD 0
  let plain := max (row.inputTokens - read - write - audio) 0
  let total := plain * pIn + read * pRead + write * pWrite + audio * pAudio + row.outputTokens * pOut
  total * tierFor price row.inputTokens / 1000000

/-- The price per million of a kind; one without a column is a plain one. -/
def LLMPrice.rate (p : LLMPrice) : TokenKind → ℚ
  | .plain => p.inputPerMtok
  | .cacheRead => p.cacheReadPerMtok.getD p.inputPerMtok
  | .cacheWrite => p.cacheWritePerMtok.getD p.inputPerMtok
  | .audio => p.audioInputPerMtok.getD p.inputPerMtok
  | .output => p.outputPerMtok

/-- The price used for a kind in a prompt of this length. -/
def LLMPrice.used (p : LLMPrice) (prompt : ℤ) (kind : TokenKind) : ℚ :=
  p.rate kind * tierFor (some p) prompt

/-- A row costs its counts at the prices used. -/
theorem costExpr_some (dearest : TokenKind → ℚ) (p : LLMPrice) (row : CountedUsage) :
    costExpr dearest (some p) row =
      (row.count .plain * p.used row.inputTokens .plain +
        row.count .cacheRead * p.used row.inputTokens .cacheRead +
        row.count .cacheWrite * p.used row.inputTokens .cacheWrite +
        row.count .audio * p.used row.inputTokens .audio +
        row.count .output * p.used row.inputTokens .output) / 1000000 := by
  have hor : ∀ special : Option ℚ, ∀ dear : ℚ,
      (special.or (some p.inputPerMtok)).getD dear = special.getD p.inputPerMtok := by
    intro special dear
    cases special <;> rfl
  simp only [costExpr, Option.map_some, Option.bind_some, Option.getD_some, hor, CountedUsage.count,
    LLMPrice.used, LLMPrice.rate]
  push_cast
  ring

/-- A price row whose columns hold ten-thousandths. -/
def unrounded (p : Services.LLMPrice) : LLMPrice where
  model := p.model
  inputPerMtok := p.inputPerMtok / 10000
  outputPerMtok := p.outputPerMtok / 10000
  cacheReadPerMtok := p.cacheReadPerMtok.map fun q : ℤ => (q : ℚ) / 10000
  cacheWritePerMtok := p.cacheWritePerMtok.map fun q : ℤ => (q : ℚ) / 10000
  audioInputPerMtok := p.audioInputPerMtok.map fun q : ℤ => (q : ℚ) / 10000
  longContextThreshold := p.longContextThreshold
  longContextMultiplier := p.longContextMultiplier.map fun q : ℤ => (q : ℚ) / 10000
  source := "manual"
  updatedAt := 0

/-- On such a row it is the cost the charges are about. -/
theorem used_unrounded (p : Services.LLMPrice) (prompt : ℤ) (kind : TokenKind) :
    (unrounded p).used prompt kind * 100000000 = p.ratePast prompt kind := by
  have hspecial : ∀ special : Option ℤ, ((special.map fun q : ℤ => (q : ℚ) / 10000).getD
      (p.inputPerMtok / 10000)) * 10000 = special.getD p.inputPerMtok := by
    intro special
    cases special <;> simp
  have hrate : (unrounded p).rate kind * 10000 = p.rate kind := by
    cases kind with
    | plain => simp [unrounded, LLMPrice.rate, Services.LLMPrice.rate]
    | output => simp [unrounded, LLMPrice.rate, Services.LLMPrice.rate]
    | cacheRead => exact hspecial p.cacheReadPerMtok
    | cacheWrite => exact hspecial p.cacheWritePerMtok
    | audio => exact hspecial p.audioInputPerMtok
  have htier : tierFor (some (unrounded p)) prompt * 10000 = Services.tierOf (some p) prompt := by
    simp only [tierFor, Services.tierOf, unrounded, Option.bind_some]
    cases p.longContextThreshold with
    | none => simp
    | some threshold =>
      dsimp only
      split
      · cases p.longContextMultiplier <;> simp
      · simp
  rw [LLMPrice.used, Services.LLMPrice.ratePast, Int.cast_mul, ← hrate, ← htier]
  ring

/-! ### What the list publishes -/

/-- The kinds the list has a column for. -/
def kinds : List TokenKind := [.plain, .cacheWrite, .cacheRead, .output]

/-- A footnote mark at the start of a text: how long it is. -/
def noteMark (text : List Char) : Option ℕ :=
  (afterLiteral "<sup>" text).bind fun rest =>
    (afterLiteral "</sup>" (rest.dropWhile (· ≠ '<'))).map fun after => text.length - after.length

/-- What is to be seen of a row: a link shows its label, footnote marks are left out. -/
def seen (row : Row) : Row := row.map fun c => labels 0 (removeTags noteMark 0 c)

def Columns.of (columns : Columns) : TokenKind → Option ℕ
  | .plain => some columns.input
  | .cacheWrite => some columns.cacheWrite
  | .cacheRead => some columns.cacheRead
  | .audio => none
  | .output => some columns.output

/-- The figure of a row for a kind. -/
def figure (columns : Columns) (row : Row) (kind : TokenKind) : Option ℚ :=
  (columns.of kind).bind fun i => firstAmount (removeTags tag 0 (row.getD i []))

/-- No footnote mark and no link runs into what is read from the row. -/
def Legible (columns : Columns) (row : Row) : Prop :=
  nameOf row = nameOf (seen row) ∧ tierOf row = tierOf (seen row) ∧
    ∀ kind ∈ kinds, figure columns row kind = figure columns (seen row) kind

instance (columns : Columns) (row : Row) : Decidable (Legible columns row) :=
  inferInstanceAs (Decidable (_ ∧ _ ∧ _))

/-! ### A row in plain letters -/

/-- Letters of which nothing is hidden. -/
def Bare (text : List Char) : Prop := '<' ∉ text ∧ '[' ∉ text

/-- What closes a figure: no letter behind it is still read as one of its own. -/
def Closes (c : Char) : Prop := c ≠ '$' ∧ c ≠ '.' ∧ c.isDigit = false ∧ isSpace c = false

/-- A footnote mark. -/
def noteOf (digits : List Char) : List Char := "<sup>".toList ++ (digits ++ "</sup>".toList)

/-- A cell without links and tags, or one with a footnote mark clear of its figures. -/
inductive Spelt : List Char → Prop
  | bare {text} (h : Bare text) : Spelt text
  | noted {body c digits} (hbody : Bare (body ++ [c])) (hc : Closes c)
      (hdigits : ∀ d ∈ digits, d.isDigit = true) : Spelt (body ++ c :: noteOf digits)

theorem removeTags_bare {mark : List Char → Option ℕ}
    (hmark : ∀ c text, c ≠ '<' → mark (c :: text) = none) {text : List Char} (h : '<' ∉ text)
    (rest : List Char) : removeTags mark 0 (text ++ rest) = text ++ removeTags mark 0 rest := by
  induction text with
  | nil => rfl
  | cons c text ih =>
    have hc : c ≠ '<' := fun heq => h (heq ▸ List.mem_cons_self)
    simp only [List.cons_append, removeTags, hmark c _ hc,
      ih fun hmem => h (List.mem_cons_of_mem _ hmem)]

theorem tag_ne (c : Char) (text : List Char) (h : c ≠ '<') : tag (c :: text) = none := by
  unfold tag
  split
  · rename_i heq
    exact absurd (List.cons.inj heq).1 h
  · rfl

theorem noteMark_ne (c : Char) (text : List Char) (h : c ≠ '<') : noteMark (c :: text) = none := by
  have hopen : afterLiteral "<sup>" (c :: text) = none := by
    rw [afterLiteral, if_neg]
    intro heq
    exact h (foldCase_fixed (by decide) (List.cons.inj heq).1)
  rw [noteMark, hopen, Option.bind_none]

theorem labels_bare {text : List Char} (h : '[' ∉ text) : labels 0 text = text := by
  induction text with
  | nil => rfl
  | cons c text ih =>
    have hc : c ≠ '[' := fun heq => h (heq ▸ List.mem_cons_self)
    have hlink : link (c :: text) = none := by
      unfold link
      split
      · rename_i heq
        exact absurd (List.cons.inj heq).1 hc
      · rfl
    rw [labels, hlink, ih fun hmem => h (List.mem_cons_of_mem _ hmem)]

/-- What is to be seen of a cell. -/
def visible (text : List Char) : List Char := labels 0 (removeTags noteMark 0 text)

theorem visible_bare {text : List Char} (h : Bare text) : visible text = text := by
  have hmarks := removeTags_bare noteMark_ne h.1 []
  rw [List.append_nil, removeTags, List.append_nil] at hmarks
  rw [visible, hmarks, labels_bare h.2]

theorem takeWhile_stop {α : Type*} {p : α → Bool} {c : α} (hc : p c = false) (ys : List α) :
    ∀ xs : List α, (xs ++ c :: ys).takeWhile p = xs.takeWhile p
  | [] => List.takeWhile_cons_of_neg (by rw [hc]; exact Bool.false_ne_true)
  | d :: xs => by
    by_cases hd : p d = true
    · rw [List.cons_append, List.takeWhile_cons_of_pos hd, List.takeWhile_cons_of_pos hd,
        takeWhile_stop hc ys xs]
    · rw [List.cons_append, List.takeWhile_cons_of_neg hd, List.takeWhile_cons_of_neg hd]

theorem amount_closed {c : Char} (hc : Closes c) (text rest : List Char) :
    amount (text ++ c :: rest) = amount (text ++ [c]) := by
  obtain ⟨-, hpoint, hdigit, -⟩ := hc
  simp only [amount, takeWhile_stop hdigit, dropWhile_stop hdigit]
  generalize text.dropWhile (·.isDigit) = behind
  cases behind with
  | nil => simp [hpoint]
  | cons d after =>
    by_cases hd : d = '.'
    · subst hd
      simp only [List.cons_append, takeWhile_stop hdigit]
    · simp [hd]

theorem firstAmount_none {text : List Char} (h : '$' ∉ text) : firstAmount text = none := by
  induction text with
  | nil => rfl
  | cons c text ih =>
    have hc : c ≠ '$' := fun heq => h (heq ▸ List.mem_cons_self)
    rw [firstAmount, if_neg hc, ih fun hmem => h (List.mem_cons_of_mem _ hmem), Option.or_none]

/-- Behind a letter that closes a figure nothing is read of it. -/
theorem firstAmount_closed {c : Char} (hc : Closes c) {rest : List Char} (hrest : '$' ∉ rest)
    (text : List Char) : firstAmount (text ++ c :: rest) = firstAmount (text ++ [c]) := by
  induction text with
  | nil =>
    have hmem : '$' ∉ c :: rest := fun h => (List.mem_cons.mp h).elim (hc.1 ∘ Eq.symm) hrest
    rw [List.nil_append, List.nil_append, firstAmount_none hmem,
      firstAmount_none fun h => hc.1 (List.mem_singleton.mp h).symm]
  | cons d text ih =>
    simp only [List.cons_append, firstAmount, dropWhile_stop hc.2.2.2, amount_closed hc, ih]

/-- A mark at the front of the text goes. -/
theorem removeTags_front {mark : List Char → Option ℕ} {w rest : List Char} (hne : w ≠ [])
    (h : mark (w ++ rest) = some w.length) :
    removeTags mark 0 (w ++ rest) = removeTags mark 0 rest := by
  obtain ⟨c, w, rfl⟩ := List.exists_cons_of_ne_nil hne
  rw [List.cons_append] at h ⊢
  rw [removeTags, h]
  exact removeTags_skip mark w rest

section Note
variable {digits : List Char} (hdigits : ∀ d ∈ digits, d.isDigit = true)
include hdigits

theorem notMem_digits {c : Char} (hc : c.isDigit = false) : c ∉ digits := fun h =>
  Bool.false_ne_true (hc.symm.trans (hdigits c h))

/-- A footnote mark is taken out whole. -/
theorem removeTags_noteOf : removeTags noteMark 0 (noteOf digits) = [] := by
  have hrest : (digits ++ "</sup>".toList).dropWhile (· ≠ '<') = "</sup>".toList := by
    rw [List.dropWhile_append_of_pos fun d hd => decide_eq_true ?_]
    · rfl
    · rintro rfl
      exact notMem_digits hdigits (by decide) hd
  have hmark : noteMark (noteOf digits ++ []) = some (noteOf digits).length := by
    have hclose : afterLiteral "</sup>" "</sup>".toList = some [] := by decide
    rw [List.append_nil, noteMark, noteOf, afterLiteral_append (by decide), Option.bind_some, hrest,
      hclose, Option.map_some, List.length_nil, Nat.sub_zero]
  have hfront := removeTags_front (by rw [noteOf]; exact List.cons_ne_nil _ _) hmark
  rwa [List.append_nil] at hfront

/-- Of its tags alone the figures are left. -/
theorem removeTags_tag_noteOf : removeTags tag 0 (noteOf digits) = digits := by
  have hopen : tag ("<sup>".toList ++ (digits ++ "</sup>".toList)) = some 5 := by
    change some ((digits ++ "</sup>".toList).length + 4 + 1 - (digits ++ "</sup>".toList).length) = _
    congr 1
    omega
  have hclose : removeTags tag 0 "</sup>".toList = [] := by decide
  rw [noteOf, removeTags_front (by decide) hopen,
    removeTags_bare tag_ne (notMem_digits hdigits (by decide)), hclose, List.append_nil]

end Note

/-- A figure is read the same with what is hidden and without. -/
theorem Spelt.read {text : List Char} (h : Spelt text) :
    firstAmount (removeTags tag 0 text) = firstAmount (removeTags tag 0 (visible text)) := by
  cases h with
  | bare h => rw [visible_bare h]
  | @noted body c digits hbody hc hdigits =>
    have hsplit : body ++ c :: noteOf digits = (body ++ [c]) ++ noteOf digits := by simp
    have hshown : visible (body ++ c :: noteOf digits) = body ++ [c] := by
      rw [visible, hsplit, removeTags_bare noteMark_ne hbody.1, removeTags_noteOf hdigits,
        List.append_nil, labels_bare hbody.2]
    have htags := removeTags_bare tag_ne hbody.1 []
    rw [List.append_nil] at htags
    rw [hshown, htags, hsplit, removeTags_bare tag_ne hbody.1, removeTags_tag_noteOf hdigits,
      removeTags, List.append_nil, List.append_assoc, List.singleton_append]
    exact firstAmount_closed hc (notMem_digits hdigits (by decide)) body

/-- PLAIN TEXT: a name in plain letters, and footnote marks clear of the figures. -/
theorem legible_of_spelt {columns : Columns} {row : Row} (hname : Bare (row.headD []))
    (hrow : ∀ text ∈ row, Spelt text) : Legible columns row := by
  have hraw : rawName (seen row) = rawName row := by
    cases row with
    | nil => rfl
    | cons text row => exact congrArg (labels 0) (visible_bare hname)
  refine ⟨by rw [nameOf, nameOf, hraw], by rw [tierOf, tierOf, hraw], fun kind _ => ?_⟩
  have hread : ∀ i, firstAmount (removeTags tag 0 (row.getD i [])) =
      firstAmount (removeTags tag 0 ((seen row).getD i [])) := by
    intro i
    cases h : row[i]? with
    | none => simp [List.getD, seen, h]
    | some text =>
      simpa [List.getD, seen, h, visible] using (hrow text (List.mem_of_getElem? h)).read
  simp only [figure, hread]

/-! ### What a model is listed at -/

/-- How the list gives a model: in a row, or in a row up to a prompt length and one past it. -/
inductive Listing where
  | one (row : Row)
  | two (n : ℕ) (upTo past : Row)

/-- The rows of a model, with all their columns or not. -/
def Page.rowsOf (page : Page) (name : List Char) : List Row :=
  page.rows.filter fun row => nameOf (seen row) = name

def Page.Lists (page : Page) (name : List Char) : Listing → Prop
  | .one row => page.rowsOf name = [row] ∧ page.columns.Within row ∧
      (tierOf (seen row)).map (·.1) ≠ some .past
  | .two n upTo past => (page.rowsOf name = [upTo, past] ∨ page.rowsOf name = [past, upTo]) ∧
      (page.columns.Within upTo ∧ tierOf (seen upTo) = some (.upTo, n)) ∧
      page.columns.Within past ∧ tierOf (seen past) = some (.past, n)

instance (page : Page) (name : List Char) : (listing : Listing) → Decidable (page.Lists name listing)
  | .one _ => inferInstanceAs (Decidable (_ ∧ _ ∧ _))
  | .two _ _ _ => inferInstanceAs (Decidable (_ ∧ (_ ∧ _) ∧ _ ∧ _))

/-- What a token of a kind is charged at: past the threshold the figure up to it, as many times as
    the input figures are apart. -/
def Listing.price (columns : Columns) : Listing → ℤ → TokenKind → Option ℚ
  | .one row, _, kind => figure columns (seen row) kind
  | .two n upTo past, prompt, kind =>
    let input := figure columns (seen upTo) .plain
    let long := figure columns (seen past) .plain
    -- of nothing there is no multiple
    if prompt ≤ n ∨ input = some 0 then figure columns (seen upTo) kind
    else if kind = .plain then long
    else (figure columns (seen upTo) kind).bind fun f => input.bind fun i => long.map fun l =>
      f * (l / i)

/-! ### What is read of a row -/

/-- The price of a kind, before any multiple. -/
def PublishedPrice.of (p : PublishedPrice) : TokenKind → ℚ
  | .plain => p.input
  | .cacheWrite => p.cacheWrite
  | .cacheRead => p.cacheRead
  | .audio => p.input
  | .output => p.output

@[simp] theorem PublishedPrice.of_plain (p : PublishedPrice) : p.of .plain = p.input := rfl

/-- Past the threshold of no length the price is the same. -/
def PublishedPrice.Flat (p : PublishedPrice) : Prop :=
  p.longContextThreshold = none ∧ p.longContextMultiplier = none

/-- What an entry has is what is in its row. -/
structure Reads (columns : Columns) (row : Row) (entry : Entry) : Prop where
  name : entry.name = nameOf row
  tier : entry.tier = tierOf row
  flat : entry.price.Flat
  figures : ∀ kind ∈ kinds, figure columns row kind = some (entry.price.of kind)

variable {columns : Columns} {row : Row} {entry : Entry}

theorem money_ok_iff {text : List Char} {q : ℚ} :
    money text = .ok q ↔ firstAmount (removeTags tag 0 text) = some q := by
  rw [money]
  cases firstAmount (removeTags tag 0 text) with
  | none => simp
  | some figure => simp

theorem reads_of_ok (h : entryOf columns row = .ok entry) : Reads columns row entry := by
  obtain ⟨input, hinput, h⟩ := bind_eq_ok_iff.mp h
  obtain ⟨write, hwrite, h⟩ := bind_eq_ok_iff.mp h
  obtain ⟨read, hread, h⟩ := bind_eq_ok_iff.mp h
  obtain ⟨output, houtput, rfl⟩ := map_eq_ok_iff.mp h
  refine ⟨rfl, rfl, ⟨rfl, rfl⟩, ?_⟩
  simp only [kinds, List.forall_mem_cons, List.not_mem_nil, false_imp_iff, implies_true, and_true]
  exact ⟨money_ok_iff.mp hinput, money_ok_iff.mp hwrite, money_ok_iff.mp hread,
    money_ok_iff.mp houtput⟩

/-! ### The loop over the rows -/

/-- The row is for prompts over a length. -/
def Entry.isPast (entry : Entry) : Bool := entry.tier.map (·.1) = some .past

/-- The length, with the input figure past it. -/
def Entry.multiplied (entry : Entry) : ℕ × ℚ := ((entry.tier.map (·.2)).getD 0, entry.price.input)

theorem file_base (books : Books) (entry : Entry) : (books.file entry).base =
    if entry.isPast then books.base else setDefault books.base entry.name entry.price := by
  obtain ⟨name, tier, price⟩ := entry
  rcases tier with - | ⟨- | -, n⟩ <;> rfl

theorem file_past (books : Books) (entry : Entry) : (books.file entry).past =
    if entry.isPast then books.past.insert entry.name entry.multiplied else books.past := by
  obtain ⟨name, tier, price⟩ := entry
  rcases tier with - | ⟨- | -, n⟩ <;> rfl

theorem foldl_file_base : ∀ (entries : List Entry) (books : Books),
    (entries.foldl Books.file books).base =
      (entries.filter fun e => !e.isPast).foldl (fun t e => setDefault t e.name e.price) books.base
  | [], _ => rfl
  | e :: entries, books => by
    rw [List.foldl_cons, foldl_file_base entries, file_base]
    cases he : e.isPast with
    | true => simp [he]
    | false => simp [he]

theorem foldl_file_past : ∀ (entries : List Entry) (books : Books),
    (entries.foldl Books.file books).past =
      (entries.filter Entry.isPast).foldl (fun t e => t.insert e.name e.multiplied) books.past
  | [], _ => rfl
  | e :: entries, books => by
    rw [List.foldl_cons, foldl_file_past entries, file_past]
    cases he : e.isPast with
    | true => simp [he]
    | false => simp [he]

/-- READ: the loop goes through when every row with all the columns can be read, and files what is
    read, in order. -/
theorem readRows_ok : ∀ {rows : List Row} {books books' : Books},
    readRows columns books rows = .ok books' → ∃ entries,
      List.Forall₂ (fun row entry => entryOf columns row = .ok entry)
        (rows.filter fun row => columns.Within row) entries ∧
      books' = entries.foldl Books.file books
  | [], _, _, h => ⟨[], .nil, (Except.ok.inj h).symm⟩
  | row :: rows, books, books', h => by
    rw [readRows] at h
    split at h
    case isTrue hwithin =>
      obtain ⟨entry, hentry, h⟩ := bind_eq_ok_iff.mp h
      obtain ⟨entries, hentries, rfl⟩ := readRows_ok h
      refine ⟨entry :: entries, ?_, rfl⟩
      rw [List.filter_cons_of_pos (by simpa using hwithin)]
      exact .cons hentry hentries
    case isFalse hshort =>
      obtain ⟨entries, hentries, rfl⟩ := readRows_ok h
      refine ⟨entries, ?_, rfl⟩
      rwa [List.filter_cons_of_neg (by simpa using hshort)]

/-- The price of a model, given its entries. -/
def priceOf (entries : List Entry) : Option PublishedPrice :=
  (entries.filter fun e => !e.isPast).head?.map fun e =>
    ((entries.filter Entry.isPast).getLast?.map Entry.multiplied).elim e.price e.price.withPast

/-- PARSED: what a model is priced at is up to its own entries. -/
theorem lookup_parsed {markdown : List Char} {page : Page} {prices : Table (List Char) PublishedPrice}
    (hpage : pageOf markdown = .ok page) (h : parseAnthropicPricing markdown = .ok prices) :
    ∃ entries, List.Forall₂ (fun row entry => entryOf page.columns row = .ok entry)
        (page.rows.filter fun row => page.columns.Within row) entries ∧
      ∀ name, prices.lookup name = priceOf (entries.filter fun e => e.name = name) := by
  obtain ⟨page', hpage', h⟩ := bind_eq_ok_iff.mp h
  obtain rfl := Except.ok.inj (hpage.symm.trans hpage')
  obtain ⟨books, hbooks, h⟩ := bind_eq_ok_iff.mp h
  obtain ⟨entries, hentries, rfl⟩ := readRows_ok hbooks
  refine ⟨entries, hentries, fun name => ?_⟩
  dsimp only at h
  split at h
  case isTrue => cases h
  case isFalse =>
    obtain rfl := Except.ok.inj h
    rw [lookup_revise, foldl_file_base, foldl_file_past, lookup_foldl_setDefault,
      lookup_foldl_insert, List.filter_comm _ Entry.isPast,
      List.filter_comm _ fun e : Entry => !e.isPast]
    simp only [AList.lookup_empty, Option.none_or, Option.or_none, Option.map_map]
    rfl

/-! ### What a model is charged at -/

/-- The figures of a column are not touched by the upsert. -/
theorem rate_setPrice (old : Option LLMPrice) (model : String) (p : PublishedPrice) (source : String)
    (now : ℕ) : ∀ kind ∈ kinds, (setPrice old model p source now).rate kind = p.of kind := by
  simp only [kinds, List.forall_mem_cons, List.not_mem_nil, false_imp_iff, implies_true, and_true]
  exact ⟨rfl, rfl, rfl, rfl⟩

theorem used_flat {p : PublishedPrice} (hflat : p.Flat) (old : Option LLMPrice) (model source : String)
    (now : ℕ) (prompt : ℤ) {kind : TokenKind} (hkind : kind ∈ kinds) :
    (setPrice old model p source now).used prompt kind = p.of kind := by
  rw [LLMPrice.used, rate_setPrice _ _ _ _ _ kind hkind]
  simp [tierFor, setPrice, hflat.1]

/-- TIER: past the threshold, every kind at the ratio of the input figures. -/
theorem used_withPast {p : PublishedPrice} (hflat : p.Flat) (n : ℕ) (long : ℚ)
    (old : Option LLMPrice) (model source : String) (now : ℕ) (prompt : ℤ) {kind : TokenKind}
    (hkind : kind ∈ kinds) : (setPrice old model (p.withPast (n, long)) source now).used prompt kind =
      if prompt ≤ n ∨ p.input = 0 then p.of kind else p.of kind * (long / p.input) := by
  by_cases hfree : p.input = 0
  · rw [PublishedPrice.withPast, if_pos hfree, if_pos (.inr hfree)]
    exact used_flat hflat old model source now prompt hkind
  · have hof : (p.withPast (n, long)).of kind = p.of kind := by
      rw [PublishedPrice.withPast, if_neg hfree]
      cases kind <;> rfl
    rw [LLMPrice.used, rate_setPrice _ _ _ _ _ kind hkind, hof]
    simp only [hfree, or_false]
    by_cases hprompt : prompt ≤ n
    · simp [tierFor, setPrice, PublishedPrice.withPast, hfree, hprompt]
    · simp [tierFor, setPrice, PublishedPrice.withPast, hfree, hprompt, lt_of_not_ge hprompt]

/-- EXACT CONDITION: past the threshold a kind is charged as published just when its two figures are
    as far apart as the input figures. -/
theorem price_past_iff {n : ℕ} {upTo past : Row} {prompt : ℤ} {kind : TokenKind} {f g i l : ℚ}
    (hprompt : n < prompt) (hi : i ≠ 0) (hinput : figure columns (seen upTo) .plain = some i)
    (hlong : figure columns (seen past) .plain = some l)
    (hf : figure columns (seen upTo) kind = some f)
    (hg : figure columns (seen past) kind = some g) :
    (Listing.two n upTo past).price columns prompt kind = figure columns (seen past) kind ↔
      f * l = g * i := by
  have hbase : ¬ (prompt ≤ n ∨ i = 0) := by
    rintro (hle | hzero)
    · omega
    · exact hi hzero
  simp only [Listing.price, hinput, hlong, hf, hg, Option.some.injEq, if_neg hbase, Option.bind_some,
    Option.map_some]
  by_cases hkind : kind = .plain
  · rw [hkind] at hf hg
    obtain rfl := Option.some.inj (hf.symm.trans hinput)
    obtain rfl := Option.some.inj (hg.symm.trans hlong)
    simp [hkind, mul_comm]
  · simp only [hkind, if_false, Option.some.injEq]
    rw [← mul_div_assoc, div_eq_iff hi]

/-- What an entry has is what is to be seen of its row. -/
structure Shown (columns : Columns) (row : Row) (entry : Entry) : Prop where
  tier : entry.tier = tierOf (seen row)
  flat : entry.price.Flat
  figures : ∀ kind ∈ kinds, figure columns (seen row) kind = some (entry.price.of kind)

theorem Reads.shown (h : Reads columns row entry) (hlegible : Legible columns row) :
    Shown columns row entry where
  tier := h.tier.trans hlegible.2.1
  flat := h.flat
  figures kind hkind := (hlegible.2.2 kind hkind).symm.trans (h.figures kind hkind)

/-- The rows of a model that all have their columns are the ones its entries are read from. -/
theorem entries_of_rows {page : Page} {entries : List Entry}
    (hlegible : ∀ row ∈ page.rows, Legible page.columns row)
    (hentries : List.Forall₂ (fun row entry => entryOf page.columns row = .ok entry)
      (page.rows.filter fun row => page.columns.Within row) entries)
    {name : List Char} (hwithin : ∀ row ∈ page.rowsOf name, page.columns.Within row) :
    List.Forall₂ (Shown page.columns) (page.rowsOf name) (entries.filter fun e => e.name = name) := by
  have hmine : page.rowsOf name = (page.rows.filter fun row => page.columns.Within row).filter
      fun row => nameOf row = name := by
    rw [List.filter_comm, List.filter_eq_self.mpr]
    · refine List.filter_congr fun row hrow => ?_
      rw [(hlegible row hrow).1]
    · intro row hrow
      refine decide_eq_true (hwithin row ?_)
      obtain ⟨hmem, hname⟩ := List.mem_filter.mp hrow
      rw [(hlegible row hmem).1] at hname
      exact List.mem_filter.mpr ⟨hmem, hname⟩
  have hread : List.Forall₂ (fun row entry => entryOf page.columns row = .ok entry)
      (page.rowsOf name) (entries.filter fun e => e.name = name) := by
    rw [hmine]
    refine List.rel_filter ?_ hentries
    intro row entry hentry
    simp only [decide_eq_true_eq, (reads_of_ok hentry).name]
  have hseen : ∀ row ∈ page.rowsOf name, Legible page.columns row := fun row hrow =>
    hlegible row (List.mem_filter.mp hrow).1
  refine List.Forall₂.imp ?_ ((List.forall₂_and_left _ _).mpr ⟨hseen, hread⟩)
  exact fun row entry h => (reads_of_ok h.2).shown h.1

/-- Whatever row it is set in, a price is charged as the listing says. -/
def ChargedAs (page : Page) (listing : Listing) (price : PublishedPrice) : Prop :=
  ∀ old model source now prompt, ∀ kind ∈ kinds,
    some ((setPrice old model price source now).used prompt kind) =
      listing.price page.columns prompt kind

theorem charged_one {page : Page} {row : Row} {entry : Entry} (h : Shown page.columns row entry) :
    ChargedAs page (.one row) entry.price := by
  intro old model source now prompt kind hkind
  rw [used_flat h.flat old model source now prompt hkind, Listing.price, h.figures kind hkind]

theorem charged_two {page : Page} {n : ℕ} {upTo past : Row} {e f : Entry}
    (he : Shown page.columns upTo e) (hf : Shown page.columns past f) :
    ChargedAs page (.two n upTo past) (e.price.withPast (n, f.price.input)) := by
  intro old model source now prompt kind hkind
  have hplain : TokenKind.plain ∈ kinds := List.mem_cons_self
  rw [used_withPast he.flat n _ old model source now prompt hkind]
  simp only [Listing.price, he.figures kind hkind, he.figures _ hplain, hf.figures _ hplain,
    PublishedPrice.of_plain, Option.some.injEq, Option.bind_some, Option.map_some]
  by_cases hbase : prompt ≤ n ∨ e.price.input = 0
  · rw [if_pos hbase, if_pos hbase]
  · rw [if_neg hbase, if_neg hbase]
    have hinput : e.price.input ≠ 0 := fun h => hbase (.inr h)
    by_cases hkind' : kind = .plain
    · -- the ratio is made for the input figure
      rw [if_pos hkind', hkind', PublishedPrice.of_plain, mul_div_cancel₀ _ hinput]
    · rw [if_neg hkind']

theorem forall₂_pair {α β : Type*} {R : α → β → Prop} {a b : α} {l : List β}
    (h : List.Forall₂ R [a, b] l) : ∃ x y, R a x ∧ R b y ∧ l = [x, y] := by
  obtain ⟨x, rest, hx, hrest, rfl⟩ := List.forall₂_cons_left_iff.mp h
  obtain ⟨y, last, hy, hlast, rfl⟩ := List.forall₂_cons_left_iff.mp hrest
  obtain rfl := List.forall₂_nil_left_iff.mp hlast
  exact ⟨x, y, hx, hy, rfl⟩

section Listed
variable {markdown : List Char} {page : Page} {prices : Table (List Char) PublishedPrice}
  (hpage : pageOf markdown = .ok page) (hlegible : ∀ row ∈ page.rows, Legible page.columns row)
  (h : parseAnthropicPricing markdown = .ok prices) {name : List Char}

include hpage hlegible h

/-- The price of a model is made of what its rows show. -/
theorem priced_by_rows (hwithin : ∀ row ∈ page.rowsOf name, page.columns.Within row) :
    ∃ mine, List.Forall₂ (Shown page.columns) (page.rowsOf name) mine ∧
      prices.lookup name = priceOf mine := by
  obtain ⟨entries, hentries, hlookup⟩ := lookup_parsed hpage h
  exact ⟨_, entries_of_rows hlegible hentries hwithin, hlookup name⟩

theorem one_priced {row : Row} (hlists : page.Lists name (.one row)) :
    ∃ price, prices.lookup name = some price ∧ ChargedAs page (.one row) price := by
  obtain ⟨hrows, hwithin, hbound⟩ := hlists
  have hall : ∀ row ∈ page.rowsOf name, page.columns.Within row := by simpa [hrows] using hwithin
  obtain ⟨mine, hmine, hlookup⟩ := priced_by_rows hpage hlegible h hall
  rw [hrows] at hmine
  obtain ⟨e, rest, he, hrest, rfl⟩ := List.forall₂_cons_left_iff.mp hmine
  obtain rfl := List.forall₂_nil_left_iff.mp hrest
  have hfirst : e.isPast = false := by
    rw [Entry.isPast, he.tier]
    exact decide_eq_false hbound
  refine ⟨e.price, ?_, charged_one he⟩
  rw [hlookup]
  simp [priceOf, hfirst]

theorem two_priced {n : ℕ} {upTo past : Row} (hlists : page.Lists name (.two n upTo past)) :
    ∃ price, prices.lookup name = some price ∧ ChargedAs page (.two n upTo past) price := by
  obtain ⟨hrows, ⟨hwithin, hupTo⟩, hwithin', hpast⟩ := hlists
  have hall : ∀ row ∈ page.rowsOf name, page.columns.Within row := by
    rcases hrows with hrows | hrows <;> simp [hrows, hwithin, hwithin']
  obtain ⟨mine, hmine, hlookup⟩ := priced_by_rows hpage hlegible h hall
  have hpair : ∃ e f, Shown page.columns upTo e ∧ Shown page.columns past f ∧
      (mine = [e, f] ∨ mine = [f, e]) := by
    rcases hrows with hrows | hrows
    · rw [hrows] at hmine
      obtain ⟨e, f, he, hf, rfl⟩ := forall₂_pair hmine
      exact ⟨e, f, he, hf, .inl rfl⟩
    · rw [hrows] at hmine
      obtain ⟨f, e, hf, he, rfl⟩ := forall₂_pair hmine
      exact ⟨e, f, he, hf, .inr rfl⟩
  obtain ⟨e, f, he, hf, hmine⟩ := hpair
  have hfirst : e.isPast = false := by simp [Entry.isPast, he.tier, hupTo]
  have hsecond : f.isPast = true := by simp [Entry.isPast, hf.tier, hpast]
  have hmultiplied : f.multiplied = (n, f.price.input) := by
    simp [Entry.multiplied, hf.tier, hpast]
  refine ⟨e.price.withPast (n, f.price.input), ?_, charged_two he hf⟩
  rw [hlookup]
  rcases hmine with rfl | rfl <;> simp [priceOf, hfirst, hsecond, hmultiplied]

/-- LISTED: a model in one row, or in a pair in either order, has a price and is charged at it. -/
theorem listed_priced {listing : Listing} (hlists : page.Lists name listing) :
    ∃ price, prices.lookup name = some price ∧ ChargedAs page listing price := by
  cases listing with
  | one row => exact one_priced hpage hlegible h hlists
  | two n upTo past => exact two_priced hpage hlegible h hlists

end Listed

/-- RAISED: a row that has all the columns and no figure in one of them. -/
theorem unreadable_raises {markdown : List Char} {page : Page} (hpage : pageOf markdown = .ok page)
    {row : Row} (hrow : row ∈ page.rows) (hwithin : page.columns.Within row)
    (hlegible : Legible page.columns row) {kind : TokenKind} (hkind : kind ∈ kinds)
    (hnone : figure page.columns (seen row) kind = none) :
    ∃ e, parseAnthropicPricing markdown = .error e := by
  cases h : parseAnthropicPricing markdown with
  | error e => exact ⟨e, rfl⟩
  | ok prices =>
    obtain ⟨entries, hentries, -⟩ := lookup_parsed hpage h
    have hmem : row ∈ page.rows.filter fun row => page.columns.Within row :=
      List.mem_filter.mpr ⟨hrow, decide_eq_true hwithin⟩
    obtain ⟨i, hi⟩ := List.getElem?_of_mem hmem
    obtain ⟨entry, -, hentry⟩ := exists_counterpart hentries hi
    have hfigure := (reads_of_ok hentry).figures kind hkind
    rw [hlegible.2.2 kind hkind, hnone] at hfigure
    cases hfigure

/-- CORRECT: a page that is read prices every model it lists, and each kind of token is charged at
    the figure of its row, past N at the input's multiple of the row up to N; a page with a row that
    cannot be read is not read. -/
theorem priced_as_listed {markdown : List Char} {page : Page} (hpage : pageOf markdown = .ok page)
    (hlegible : ∀ row ∈ page.rows, Legible page.columns row) :
    (∀ prices, parseAnthropicPricing markdown = .ok prices → ∀ name listing,
      page.Lists name listing →
        ∃ price, prices.lookup name = some price ∧ ChargedAs page listing price) ∧
    ∀ row ∈ page.rows, page.columns.Within row →
      (∃ kind ∈ kinds, figure page.columns (seen row) kind = none) →
        ∃ e, parseAnthropicPricing markdown = .error e := by
  refine ⟨fun prices h name listing hlists => listed_priced hpage hlegible h hlists, ?_⟩
  rintro row hrow hwithin ⟨kind, hkind, hnone⟩
  exact unreadable_raises hpage hrow hwithin (hlegible row hrow) hkind hnone

/-! ### Two pages -/

def headLine : List Char :=
  "|Model|Base input tokens|5m cache writes|Cache hits|Output tokens".toList

def haikuUpTo : List Char := "|Haiku (for prompts up to 100 tokens)|$0.10|$0.20|$0.01|$0.50".toList

def haikuPast : List Char := "|Haiku (for prompts over 100 tokens)|$0.50|$1|$0.05|$2.50".toList

def fable : List Char := "|Fable|$10|$12|$1|$50".toList

def pageText (rows : List (List Char)) : List Char :=
  (headLine :: ['|'] :: rows).flatMap (· ++ ['\n'])

/-- A link and a footnote keep clear of what is read, and the pair is not in order. -/
def plainPage : List Char :=
  pageText [haikuPast, "|[Opus](//ai)|$4|$5|$1 / MTok<sup>1</sup>|$20".toList, haikuUpTo, fable]

def pageRead (markdown : List Char) : Page :=
  (pageOf markdown).toOption.getD ⟨⟨0, 0, 0, 0⟩, []⟩

def pricesRead (markdown : List Char) : Table (List Char) PublishedPrice :=
  (parseAnthropicPricing markdown).toOption.getD ∅

theorem haiku_priced : ∃ price, (pricesRead plainPage).lookup "Haiku".toList = some price ∧
    ChargedAs (pageRead plainPage) (.two 100 (cells haikuUpTo) (cells haikuPast)) price := by
  have hread : (pageOf plainPage).toOption.isSome ∧
      (parseAnthropicPricing plainPage).toOption.isSome ∧
      (∀ row ∈ (pageRead plainPage).rows, Legible (pageRead plainPage).columns row) ∧
      (pageRead plainPage).Lists "Haiku".toList (.two 100 (cells haikuUpTo) (cells haikuPast)) := by
    decide +kernel
  obtain ⟨hpage, hprices, hlegible, hlists⟩ := hread
  exact (priced_as_listed (ok_of_isSome hpage _) hlegible).1 _ (ok_of_isSome hprices _) _ _ hlists

def haikuSteep : List Char := "|Haiku (for prompts over 100 tokens)|$0.50|$1|$0.05|$7.50".toList

def opusNoted : List Char := "|Opus|$4<sup>2</sup>|$5|$1|$20".toList

def sonnetCut : List Char := "|Sonnet|$2|$3".toList

def astrayPage : List Char := pageText [haikuUpTo, haikuSteep, opusNoted, sonnetCut, fable]

/-- What a page has a kind charged at, if it prices the model. -/
def chargedAt (markdown : List Char) (name : String) (prompt : ℤ) (kind : TokenKind) : Option ℚ :=
  ((pricesRead markdown).lookup name.toList).map fun price =>
    (setPrice none "claude" price "anthropic-docs" 0).used prompt kind

/-- Output past the threshold is charged at the multiple of the input figures; a footnote mark runs
    into the figure before it; a model whose row is cut short has no price. -/
theorem page_astray :
    (∃ page, pageOf astrayPage = .ok page ∧
      page.Lists "Haiku".toList (.two 100 (cells haikuUpTo) (cells haikuSteep)) ∧
      figure page.columns (seen (cells haikuSteep)) .output = some (15 / 2) ∧
      page.rowsOf "Opus".toList = [cells opusNoted] ∧
      figure page.columns (seen (cells opusNoted)) .plain = some 4 ∧
      page.rowsOf "Sonnet".toList = [cells sonnetCut]) ∧
    (∃ prices, parseAnthropicPricing astrayPage = .ok prices) ∧
      chargedAt astrayPage "Haiku" 200 .output = some (5 / 2) ∧
      chargedAt astrayPage "Opus" 1 .plain = some 42 ∧
      chargedAt astrayPage "Sonnet" 1 .plain = none := by
  have hread : (pageOf astrayPage).toOption.isSome ∧
      (pageRead astrayPage).Lists "Haiku".toList (.two 100 (cells haikuUpTo) (cells haikuSteep)) ∧
      figure (pageRead astrayPage).columns (seen (cells haikuSteep)) .output = some (15 / 2) ∧
      (pageRead astrayPage).rowsOf "Opus".toList = [cells opusNoted] ∧
      figure (pageRead astrayPage).columns (seen (cells opusNoted)) .plain = some 4 ∧
      (pageRead astrayPage).rowsOf "Sonnet".toList = [cells sonnetCut] ∧
      (parseAnthropicPricing astrayPage).toOption.isSome ∧
      chargedAt astrayPage "Haiku" 200 .output = some (5 / 2) ∧
      chargedAt astrayPage "Opus" 1 .plain = some 42 ∧
      chargedAt astrayPage "Sonnet" 1 .plain = none := by
    decide +kernel
  obtain ⟨hpage, hhaiku, hsteep, hopus, hnoted, hsonnet, hprices, hcharged⟩ := hread
  exact ⟨⟨_, ok_of_isSome hpage _, hhaiku, hsteep, hopus, hnoted, hsonnet⟩,
    ⟨_, ok_of_isSome hprices ∅⟩, hcharged⟩

end LunaCore.Services.Pricing
