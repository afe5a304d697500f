import LunaCore.Chat.Message
import LunaCore.Stream.Turn

/-! The lifecycle of one assistant turn that every streaming provider shares: its started event, the
    deltas with their Redis keys, a partial row when it ends early, and the final row.

        ensure started → ( append → RPUSH → INCR → PUBLISH )* → row → DEL keys

    The parts of the text live in the provider's memory; the list of chunks, the delta counter and
    the in-flight meta in Redis. All of a turn's rows would bear the turn's message id, which is the
    primary key of the table. -/

namespace LunaCore.Providers
open LunaCore.Values LunaCore.Chat
open LunaCore.Stream (Kind)

/-- A canonical content block of an assistant turn. -/
inductive TurnBlock where
  | text (text : String)
  | thinking (thinking : String)
  | toolUse (use : ToolUse)
  | webSearchCall (id : Option String) (queries : List String)
  | webFetchCall (id : Option String) (url : Option String)
  | native (value : Json)
  deriving DecidableEq

/-- The row of a turn, less its id and sequence. -/
structure TurnRow where
  content : List TurnBlock
  thinking : Option String
  isPartial : Bool
  deriving DecidableEq

/-- A turn: what streamed so far, its three Redis keys (an absent list is empty) and the rows with
    its message id. `numbers` is a ghost: the delta sequences given out, the newest first. -/
structure Streamed where
  textParts : List String
  thinkingParts : List String
  started : Bool
  deltaSeqBase : ℕ
  inflightMeta : Bool
  cache : List (Kind × String)
  deltaSeq : Option ℕ
  rows : List TurnRow
  numbers : List ℕ
  deriving DecidableEq

def Streamed.fresh : Streamed := ⟨[], [], false, 0, false, [], none, [], []⟩

/-- What a provider does for one event, an await at a time. Only `append` is none. -/
inductive Op where
  | emitStarted
  | writeInflightMeta
  | append (kind : Kind) (text : String)
  | pushStream (kind : Kind) (text : String)
  | nextDeltaSequence
  | publish
  deriving DecidableEq

def Op.awaits : Op → Bool
  | .append _ _ => false
  | _ => true

/-- `_ensure_started`. -/
def Streamed.ensureStarted (s : Streamed) : List Op :=
  if s.started then [] else [.emitStarted, .writeInflightMeta]

/-- `_publish_delta`. -/
def publishDelta (kind : Kind) (text : String) : List Op :=
  [.append kind text, .pushStream kind text, .nextDeltaSequence, .publish]

/-- `_publish_builtin`. -/
def publishBuiltin : List Op := [.nextDeltaSequence, .publish]

/-- One of these. `sequence` is what `_emit` returns: the number of the started event, or `none` when
    it could not be persisted. -/
def Streamed.run (s : Streamed) (sequence : Option ℕ) : Op → Streamed
  | .emitStarted => { s with started := true, deltaSeqBase := sequence.getD 0 }
  | .writeInflightMeta => { s with inflightMeta := true }
  | .append .text text => { s with textParts := s.textParts ++ [text] }
  | .append .thinking text => { s with thinkingParts := s.thinkingParts ++ [text] }
  | .pushStream kind text => { s with cache := s.cache ++ [(kind, text)] }
  | .nextDeltaSequence =>
    let offset := s.deltaSeq.getD 0 + 1
    { s with deltaSeq := some offset, numbers := (s.deltaSeqBase + offset) :: s.numbers }
  | .publish => s

/-- `text.strip()`. -/
def strip (text : String) : String :=
  String.ofList ((text.toList.dropWhile isSpace).reverse.dropWhile isSpace).reverse

/-- `text.strip() or None`. -/
def stripped (text : String) : Option String := if blank text then none else some (strip text)

/-- The text shown so far. -/
def Streamed.text (s : Streamed) : String := String.join s.textParts

/-- The blocks `_save_partial_blocks` stores. -/
def Streamed.partialBlocks (s : Streamed) : List TurnBlock :=
  ((stripped (String.join s.thinkingParts)).toList.map TurnBlock.thinking) ++
    if s.text = "" then [] else [.text s.text]

/-- `save_message`, with the turn's message id: refused when a row has that id. -/
def Streamed.saveMessage (s : Streamed) (row : TurnRow) : Option Streamed :=
  if s.rows = [] then some { s with rows := [row] } else none

/-- `_save_partial_blocks`, up to the keys: nothing to store, or a row, or a row refused (which is
    logged and passed over). -/
def Streamed.savePartial (s : Streamed) : Streamed :=
  if s.partialBlocks = [] then s
  else (s.saveMessage ⟨s.partialBlocks, stripped (String.join s.thinkingParts), true⟩).getD s

/-- `redis.delete(s_key, d_key, m_key)`. -/
def Streamed.deleteKeys (s : Streamed) : Streamed :=
  { s with inflightMeta := false, cache := [], deltaSeq := none }

/-- The text of a row. -/
def TurnRow.text (row : TurnRow) : String :=
  String.join (row.content.filterMap fun
    | .text text => some text
    | _ => none)

/-- The stream cache, the counter and the meta key are gone. -/
def Streamed.Cleared (s : Streamed) : Prop :=
  s.inflightMeta = false ∧ s.cache = [] ∧ s.deltaSeq = none

/-- Nothing streamed that a partial would hold. -/
def Streamed.Silent (s : Streamed) : Prop := s.partialBlocks = []

/-- How an ended turn is to be left: no key, and the row it is due. A turn that returned has the
    final row; one that did not has a partial with the text shown so far, or none if nothing was. -/
structure Streamed.Settled (s : Streamed) (returned : Option (List TurnBlock)) : Prop where
  cleared : s.Cleared
  row : match returned with
    | some blocks => ∃ row, s.rows = [row] ∧ row.isPartial = false ∧ row.content = blocks
    | none => (s.rows = [] ∧ s.Silent) ∨ ∃ row, s.rows = [row] ∧ row.isPartial = true ∧
        row.text = s.text

/-- The turn holds no key, has no row and streamed nothing. -/
structure Streamed.Untouched (s : Streamed) : Prop where
  cleared : s.Cleared
  rows : s.rows = []
  silent : s.Silent

/-! ### What the operations keep -/

section
variable {s : Streamed}

theorem Streamed.Untouched.settled (h : s.Untouched) : s.Settled none :=
  ⟨h.cleared, .inl ⟨h.rows, h.silent⟩⟩

/-- Without a row, a turn that did not return is settled just when it is untouched. -/
theorem settled_iff_untouched (h : s.rows = []) : s.Settled none ↔ s.Untouched := by
  refine ⟨fun hs => ?_, Streamed.Untouched.settled⟩
  rcases hs.row with ⟨-, hsilent⟩ | ⟨row, hrow, -⟩
  · exact ⟨hs.cleared, h, hsilent⟩
  · rw [h] at hrow
    cases hrow

/-- A settled turn has one row at most. -/
theorem Streamed.Settled.length_le {returned : Option (List TurnBlock)} (h : s.Settled returned) :
    s.rows.length ≤ 1 := by
  have hrow := h.row
  cases returned with
  | some blocks =>
    obtain ⟨row, hrow, -⟩ := hrow
    simp [hrow]
  | none => rcases hrow with ⟨hrow, -⟩ | ⟨row, hrow, -⟩ <;> simp [hrow]

@[simp] theorem deleteKeys_cleared : s.deleteKeys.Cleared := ⟨rfl, rfl, rfl⟩

/-- The partial row holds the text shown so far. -/
theorem partialBlocks_text : (TurnRow.mk s.partialBlocks
    (stripped (String.join s.thinkingParts)) true).text = s.text := by
  rw [TurnRow.text, Streamed.partialBlocks]
  cases stripped (String.join s.thinkingParts) with
  | none => split <;> simp_all [String.join]
  | some thinking => split <;> simp_all [String.join]

/-- What `_save_partial_blocks` leaves of a turn without a row: the row it is due. -/
theorem savePartial_row (h : s.rows = []) :
    (s.Silent ∧ s.savePartial = s) ∨ (¬ s.Silent ∧ ∃ row, s.savePartial = { s with rows := [row] } ∧
      row.isPartial = true ∧ row.text = s.text) := by
  by_cases hsilent : s.partialBlocks = []
  · refine .inl ⟨hsilent, ?_⟩
    rw [Streamed.savePartial]
    rw [if_pos hsilent]
  · refine .inr ⟨hsilent, _, ?_, rfl, partialBlocks_text⟩
    rw [Streamed.savePartial, Streamed.saveMessage]
    rw [if_neg hsilent, if_pos h]
    rfl

/-- Some text was shown. -/
theorem not_silent_of_text (h : s.text ≠ "") : ¬ s.Silent := by
  simp [Streamed.Silent, Streamed.partialBlocks, h]

end

/-! ### A turn that goes on -/

/-- A turn that has not ended: the counter bounds its numbers, and what it streamed is behind its
    meta key. -/
structure Going (s : Streamed) : Prop where
  increasing : s.numbers.Pairwise (· > ·)
  bounded : ∀ n ∈ s.numbers, n ≤ s.deltaSeqBase + s.deltaSeq.getD 0
  base : s.started = false → s.deltaSeqBase = 0
  texts : ∀ part ∈ s.textParts, part ≠ ""
  marked : s.textParts ≠ [] ∨ s.thinkingParts ≠ [] → s.inflightMeta = true

/-- What is left to do for an event: nothing is appended before the turn is announced. -/
inductive Pending (s : Streamed) : List Op → Prop where
  | ready {ops : List Op} (announced : s.started = true → s.inflightMeta = true)
      (once : .emitStarted ∉ ops)
      (appends : ∀ kind text, .append kind text ∈ ops → text ≠ "" ∧ s.inflightMeta = true) :
      Pending s ops
  | starting {ops : List Op} (fresh : s.started = false) (once : .emitStarted ∉ ops)
      (appends : ∀ kind text, .append kind text ∈ ops → text ≠ "") :
      Pending s (.emitStarted :: .writeInflightMeta :: ops)
  | writing {ops : List Op} (once : .emitStarted ∉ ops)
      (appends : ∀ kind text, .append kind text ∈ ops → text ≠ "") :
      Pending s (.writeInflightMeta :: ops)

theorem going_fresh : Going .fresh where
  increasing := List.Pairwise.nil
  bounded := by simp [Streamed.fresh]
  base := fun _ => rfl
  texts := by simp [Streamed.fresh]
  marked := by simp [Streamed.fresh]

section
variable {s : Streamed}

/-- Rows do not matter to it. -/
theorem going_rows (hs : Going s) (rows : List TurnRow) : Going { s with rows := rows } :=
  ⟨hs.increasing, hs.bounded, hs.base, hs.texts, hs.marked⟩

@[simp] theorem run_rows (sequence : Option ℕ) (op : Op) : (s.run sequence op).rows = s.rows := by
  cases op with
  | append kind text => cases kind <;> rfl
  | _ => rfl

theorem pending_nil (hs : s.started = true → s.inflightMeta = true) : Pending s [] :=
  .ready hs (by simp) (by simp)

/-- Once all is done for an event, an announced turn has its meta key. -/
theorem announced_of_pending (h : Pending s []) : s.started = true → s.inflightMeta = true := by
  cases h with
  | ready announced _ _ => exact announced

/-- A number given is above all before. -/
theorem going_next (hs : Going s) (sequence : Option ℕ) :
    Going (s.run sequence .nextDeltaSequence) where
  increasing := List.pairwise_cons.mpr
    ⟨fun n hn => Nat.lt_of_le_of_lt (hs.bounded n hn) (by omega), hs.increasing⟩
  bounded := by
    intro n hn
    simp only [Streamed.run, Option.getD_some]
    rcases List.mem_cons.mp hn with rfl | hn
    · omega
    · have hle := hs.bounded n hn
      omega
  base := hs.base
  texts := hs.texts
  marked := hs.marked

theorem going_append (hs : Going s) (sequence : Option ℕ) (kind : Kind) {text : String}
    (htext : text ≠ "") (hmeta : s.inflightMeta = true) :
    Going (s.run sequence (.append kind text)) := by
  cases kind with
  | text =>
    refine ⟨hs.increasing, hs.bounded, hs.base, fun part hpart => ?_, fun _ => hmeta⟩
    rcases List.mem_append.mp hpart with hpart | hpart
    · exact hs.texts part hpart
    · rw [List.mem_singleton.mp hpart]
      exact htext
  | thinking => exact ⟨hs.increasing, hs.bounded, hs.base, hs.texts, fun _ => hmeta⟩

/-- One thing done for an event. -/
theorem going_run (hs : Going s) {op : Op} {ops : List Op} (hp : Pending s (op :: ops))
    (sequence : Option ℕ) : Going (s.run sequence op) ∧ Pending (s.run sequence op) ops := by
  cases hp with
  | ready announced once appends =>
    have honce : Op.emitStarted ∉ ops := fun h => once (List.mem_cons_of_mem _ h)
    have happends : ∀ kind text, Op.append kind text ∈ ops → text ≠ "" ∧ s.inflightMeta = true :=
      fun kind text h => appends kind text (List.mem_cons_of_mem _ h)
    cases op with
    | emitStarted => exact absurd (List.mem_cons_self ..) once
    | writeInflightMeta =>
      exact ⟨⟨hs.increasing, hs.bounded, hs.base, hs.texts, fun _ => rfl⟩,
        .ready (fun _ => rfl) honce fun kind text h => ⟨(happends kind text h).1, rfl⟩⟩
    | append kind text =>
      obtain ⟨htext, hmeta⟩ := appends kind text (List.mem_cons_self ..)
      refine ⟨going_append hs sequence kind htext hmeta, .ready ?_ honce ?_⟩
      · cases kind <;> exact announced
      · cases kind <;> exact happends
    | pushStream kind text =>
      exact ⟨⟨hs.increasing, hs.bounded, hs.base, hs.texts, hs.marked⟩,
        .ready announced honce happends⟩
    | nextDeltaSequence => exact ⟨going_next hs sequence, .ready announced honce happends⟩
    | publish => exact ⟨hs, .ready announced honce happends⟩
  | starting fresh once appends =>
    refine ⟨⟨hs.increasing, fun n hn => ?_, (fun h => by cases h), hs.texts, hs.marked⟩,
      .writing once appends⟩
    have hle := hs.bounded n hn
    rw [hs.base fresh] at hle
    simp only [Streamed.run]
    omega
  | writing once appends =>
    exact ⟨⟨hs.increasing, hs.bounded, hs.base, hs.texts, fun _ => rfl⟩,
      .ready (fun _ => rfl) once fun kind text h => ⟨appends kind text h, rfl⟩⟩

/-- The text of a turn that appended some. -/
theorem text_ne_empty (hs : Going s) (h : s.textParts ≠ []) : s.text ≠ "" := by
  obtain ⟨part, parts, hparts⟩ := List.exists_cons_of_ne_nil h
  have hpart := hs.texts part (by simp [hparts])
  intro hempty
  rw [Streamed.text] at hempty
  rw [hparts, String.join_cons] at hempty
  exact hpart (String.append_eq_empty_iff.mp hempty).1

/-- A turn that streamed something holds its meta key. -/
theorem marked_of_not_silent (hs : Going s) (h : ¬ s.Silent) : s.inflightMeta = true := by
  refine hs.marked ?_
  by_contra hnone
  obtain ⟨htext, hthinking⟩ := not_or.mp hnone
  rw [not_not] at htext hthinking
  exact h (by simp [Streamed.Silent, Streamed.partialBlocks, Streamed.text, htext, hthinking,
    stripped, blank, String.join])

/-- A turn that goes on and is settled without having returned has no row: until it is over its keys
    stay, and its final row is no partial. -/
theorem rows_of_settled (hs : Going s) (h : s.Settled none)
    (hrows : s.rows = [] ∨ ¬ s.Silent ∨ ∃ row, s.rows = [row] ∧ row.isPartial = false) :
    s.rows = [] := by
  rcases hrows with hrows | hsilent | ⟨row, hrow, hfinal⟩
  · exact hrows
  · have hmarked := marked_of_not_silent hs hsilent
    rw [h.cleared.1] at hmarked
    cases hmarked
  · rcases h.row with ⟨hnone, -⟩ | ⟨row', hrow', hpart, -⟩
    · exact hnone
    · rw [hrow] at hrow'
      obtain rfl : row = row' := List.singleton_inj.mp hrow'
      rw [hfinal] at hpart
      cases hpart

end

end LunaCore.Providers
