import LunaCore.Schemes.Pieces

/-! The lines of the CLI's output, whatever their length.

        read     a b ⏎ c        yields  a b      buf  c
        read     d              yields           buf  c d
        read     ⏎ ⏎            yields  c d, –   buf
        read     (empty: end)   yields what buf holds, if anything

    The buffer is searched from `scanned` on: where it ended before the read, and from its start
    again once a line was taken off. -/

namespace LunaCore.Providers
open LunaCore.Schemes

abbrev Bytes := List UInt8

def newline : UInt8 := 10

/-- `buf.find(b"\n", scanned)`. -/
def find (buf : Bytes) (scanned : ℕ) : Option ℕ :=
  ((buf.drop scanned).findIdx? (· == newline)).map (scanned + ·)

/-- What is found is a newline at or behind `scanned`, with no newline from there to it. -/
theorem find_eq_some {buf : Bytes} {scanned stop : ℕ} (h : find buf scanned = some stop) :
    buf = buf.take stop ++ newline :: buf.drop (stop + 1) ∧
      newline ∉ (buf.take stop).drop scanned := by
  obtain ⟨offset, hoffset, rfl⟩ := Option.map_eq_some_iff.mp h
  obtain ⟨hlt, hfound, hbefore⟩ := List.findIdx?_eq_some_iff_getElem.mp hoffset
  rw [List.length_drop] at hlt
  rw [List.getElem_drop, beq_iff_eq] at hfound
  refine ⟨?_, fun hmem => ?_⟩
  · rw [← hfound, List.getElem_cons_drop, List.take_append_drop]
  · obtain ⟨i, hi, heq⟩ := List.mem_iff_getElem.mp hmem
    simp only [List.length_drop, List.length_take] at hi
    rw [List.getElem_drop, List.getElem_take] at heq
    have hother := hbefore i (by omega)
    rw [List.getElem_drop, heq] at hother
    exact hother BEq.rfl

theorem find_eq_none {buf : Bytes} {scanned : ℕ} (h : find buf scanned = none) :
    newline ∉ buf.drop scanned := by
  intro hmem
  have hnone := List.findIdx?_eq_none_iff.mp (Option.map_eq_none_iff.mp h) newline hmem
  simp at hnone

theorem find_lt {buf : Bytes} {scanned stop : ℕ} (h : find buf scanned = some stop) :
    stop < buf.length := by
  have hlength := congrArg List.length (find_eq_some h).1
  simp only [List.length_append, List.length_take, List.length_cons, List.length_drop] at hlength
  omega

/-- The inner loop: the lines taken off the buffer, and what is left of it. -/
def takeLines (buf : Bytes) (scanned : ℕ) : List Bytes × Bytes :=
  match h : find buf scanned with
  | some stop =>
    have : buf.length - (stop + 1) < buf.length := by have := find_lt h; omega
    let (lines, rest) := takeLines (buf.drop (stop + 1)) 0
    (buf.take stop :: lines, rest)
  | none => ([], buf)
termination_by buf.length
decreasing_by rwa [List.length_drop]

theorem takeLines_found {buf : Bytes} {scanned stop : ℕ} (h : find buf scanned = some stop) :
    takeLines buf scanned = (buf.take stop :: (takeLines (buf.drop (stop + 1)) 0).1,
      (takeLines (buf.drop (stop + 1)) 0).2) := by
  rw [takeLines]
  split
  · next other hother =>
    obtain rfl := Option.some.inj (h.symm.trans hother)
    rfl
  · next hnone => simp [hnone] at h

theorem takeLines_none {buf : Bytes} {scanned : ℕ} (h : find buf scanned = none) :
    takeLines buf scanned = ([], buf) := by
  rw [takeLines]
  split
  · next hsome => simp [h] at hsome
  · rfl

/-- The end of the stream: what is left is a line without a newline. -/
def lastLine (buf : Bytes) : List Bytes := if buf = [] then [] else [buf]

/-- The outer loop, over what `stream.read` returns; an empty read is the end of the stream. -/
def readLines (buf : Bytes) : List Bytes → List Bytes
  | [] => lastLine buf
  | chunk :: reads =>
    if chunk = [] then lastLine buf
    else
      let (lines, rest) := takeLines (buf ++ chunk) buf.length
      lines ++ readLines rest reads

def stdoutLines (reads : List Bytes) : List Bytes := readLines [] reads

/-- The newline split of a stream, a last empty piece omitted. -/
def newlineSplit (stream : Bytes) : List Bytes := piecesOf newline stream

/-- No line has a newline in it. -/
theorem notMem_newlineSplit {stream line : Bytes} (h : line ∈ newlineSplit stream) :
    newline ∉ line := by
  rw [newlineSplit, piecesOf_eq, List.mem_append] at h
  rcases h with h | h
  · exact notMem_complete h
  · split at h
    · simp at h
    · rw [List.mem_singleton] at h
      exact h ▸ notMem_unfinished stream

/-- The lines, each with its newline, are the stream, to which a last newline may be missing. -/
theorem newlineSplit_joined (stream : Bytes) :
    ((newlineSplit stream).map (· ++ [newline])).flatten
      = if unfinished newline stream = [] then stream else stream ++ [newline] := by
  have hjoined := pieces_joined newline stream
  rw [newlineSplit, piecesOf_eq, List.map_append, List.flatten_append]
  by_cases h : unfinished newline stream = []
  · rw [h, List.append_nil] at hjoined
    rw [if_pos h, if_pos h, hjoined]
    exact List.append_nil stream
  · rw [if_neg h, if_neg h, List.map_singleton, List.flatten_singleton, ← List.append_assoc,
      hjoined]

/-- A way the reads can cut a stream: no read is empty before its end. -/
structure Cut (stream : Bytes) where
  chunks : List Bytes
  nonempty : ∀ chunk ∈ chunks, chunk ≠ []
  whole : chunks.flatten = stream

/-- The slowest way: a byte a read. -/
def Cut.bytewise (stream : Bytes) : Cut stream where
  chunks := stream.map ([·])
  nonempty := by simp
  whole := by rw [← List.flatMap_def, List.flatMap_singleton']

/-- The reads of the picture above: `ab⏎c`, `d`, `⏎⏎`. -/
def Cut.pictured : Cut [97, 98, 10, 99, 100, 10, 10] where
  chunks := [[97, 98, 10, 99], [100], [10, 10]]
  nonempty := by decide
  whole := rfl

/-- INVARIANT: with no newline before the scan position, the inner loop takes off the complete
    lines and leaves the unfinished one. -/
theorem takeLines_eq {buf : Bytes} {scanned : ℕ} (h : newline ∉ buf.take scanned) :
    takeLines buf scanned = (complete newline buf, unfinished newline buf) := by
  induction buf, scanned using takeLines.induct with
  | case1 buf scanned stop hfind _ lines rest _ ih =>
    obtain ⟨hcut, hbetween⟩ := find_eq_some hfind
    have hline : newline ∉ buf.take stop := by
      intro hmem
      rw [← List.take_append_drop scanned (buf.take stop), List.mem_append] at hmem
      rcases hmem with hbefore | hafter
      · rw [List.take_take] at hbefore
        exact h (List.take_subset_take_left _ (Nat.min_le_left _ _) hbefore)
      · exact hbetween hafter
    have htake := complete_cut hline (buf.drop (stop + 1))
    have hrest := unfinished_cut hline (buf.drop (stop + 1))
    rw [← hcut] at htake hrest
    rw [takeLines_found hfind, ih List.not_mem_nil, htake, hrest]
  | case2 buf scanned hfind =>
    have hnone : newline ∉ buf := by
      intro hmem
      rw [← List.take_append_drop scanned buf, List.mem_append] at hmem
      rcases hmem with hbefore | hafter
      · exact h hbefore
      · exact find_eq_none hfind hafter
    rw [takeLines_none hfind, complete_piece hnone, unfinished_piece hnone]

/-- What is read from a buffer that holds an unfinished line on. -/
theorem readLines_eq {buf : Bytes} {chunks : List Bytes} (hbuf : newline ∉ buf)
    (h : ∀ chunk ∈ chunks, chunk ≠ []) :
    readLines buf chunks = newlineSplit (buf ++ chunks.flatten) := by
  induction chunks generalizing buf with
  | nil =>
    rw [readLines, List.flatten_nil, List.append_nil, newlineSplit, piecesOf_eq,
      complete_piece hbuf, unfinished_piece hbuf]
    rfl
  | cons chunk chunks ih =>
    have hscanned : newline ∉ (buf ++ chunk).take buf.length := by
      rwa [List.take_left']
      rfl
    rw [readLines, if_neg (h chunk List.mem_cons_self), takeLines_eq hscanned]
    simp only
    rw [ih (notMem_unfinished _) fun other hother => h other (List.mem_cons_of_mem _ hother),
      List.flatten_cons, ← List.append_assoc]
    exact (piecesOf_append (buf ++ chunk) chunks.flatten).symm

/-- CORRECT: however the reads cut it, the lines are the newline split of the whole stream. -/
theorem stdoutLines_eq_newlineSplit (stream : Bytes) (cut : Cut stream) :
    stdoutLines cut.chunks = newlineSplit stream := by
  rw [stdoutLines, readLines_eq List.not_mem_nil cut.nonempty, List.nil_append, cut.whole]

/-- Two ways of cutting one stream give the same lines. -/
theorem stdoutLines_cut (stream : Bytes) (cut other : Cut stream) :
    stdoutLines cut.chunks = stdoutLines other.chunks := by
  rw [stdoutLines, stdoutLines, readLines_eq List.not_mem_nil cut.nonempty,
    readLines_eq List.not_mem_nil other.nonempty, cut.whole, other.whole]

example (stream : Bytes) (cut : Cut stream) :
    stdoutLines cut.chunks = stdoutLines (Cut.bytewise stream).chunks := stdoutLines_cut ..

example : stdoutLines Cut.pictured.chunks = [[97, 98], [99, 100], []] := by
  rw [stdoutLines, readLines_eq List.not_mem_nil Cut.pictured.nonempty]
  decide

end LunaCore.Providers
