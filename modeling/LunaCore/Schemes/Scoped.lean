import Mathlib.Algebra.BigOperators.Group.List.Basic
import Mathlib.Algebra.Order.Group.Multiset
import Mathlib.Tactic.Abel
import LunaCore.Schemes.Machine

/-! Tasks with a context variable: the value a note is made under is the one its blocks give it.

        with block: ─┬─ note ─── spawn ─── note ─┬─ note      value while inside: enter block outer
                     └──── raised: reset too ────┘            a spawned task starts from a copy

    The variable is set on the way into a block and reset on the way out, by its end or by an
    exception; what the tasks do in between is interleaved in any order. `lexical` reads the values
    off the text of the program; `scoped_run` says that a run finds the same. -/

namespace LunaCore.Schemes

universe u v w
variable {β : Type u} {ε : Type v} {ν : Type w}

/-- What a task has yet to do. A guarded part that raises goes on with its handler. -/
inductive Prog (β : Type u) (ε : Type v) where
  | done
  | raised
  | note (e : ε) (next : Prog β ε)
  | block (b : β) (body next : Prog β ε)
  | spawn (child next : Prog β ε)
  | guarded (body handler next : Prog β ε)

/-- Where a task goes on: after a block, with the value there was before it, or after a guard. -/
inductive Frame (β : Type u) (ε : Type v) (ν : Type w) where
  | leave (old : ν) (next : Prog β ε)
  | guard (handler next : Prog β ε)

structure Task (β : Type u) (ε : Type v) (ν : Type w) where
  value : ν
  prog : Prog β ε
  frames : List (Frame β ε ν)

/-- Tasks at work, the notes made so far with the value of the variable, and, for proofs only, the
    notes that were passed over. -/
structure Tasks (β : Type u) (ε : Type v) (ν : Type w) where
  tasks : List (Task β ε ν)
  notes : List (ε × ν)
  skipped : Multiset (ε × ν)

/-- What a task did. -/
structure Outcome (β : Type u) (ε : Type v) (ν : Type w) where
  task : Task β ε ν
  spawned : List (Task β ε ν)
  made : List (ε × ν)
  skipped : Multiset (ε × ν)

inductive TaskAction where
  | advance (i : ℕ)
  | fail (i : ℕ)
  deriving DecidableEq

section
variable (enter : β → ν → ν)

/-- The notes of a program, each with the value its blocks give it. -/
def Prog.lexical : ν → Prog β ε → Multiset (ε × ν)
  | _, .done | _, .raised => 0
  | value, .note e next => (e, value) ::ₘ next.lexical value
  | value, .block b body next => body.lexical (enter b value) + next.lexical value
  | value, .spawn child next => child.lexical value + next.lexical value
  | value, .guarded body handler next =>
    body.lexical value + handler.lexical value + next.lexical value

/-- The notes of a program, whatever their values. -/
def Prog.events : Prog β ε → Multiset ε
  | .done | .raised => 0
  | .note e next => e ::ₘ next.events
  | .block _ body next => body.events + next.events
  | .spawn child next => child.events + next.events
  | .guarded body handler next => body.events + handler.events + next.events

/-- Every block of the program is as given. -/
def Prog.Blocks (P : β → Prop) : Prog β ε → Prop
  | .done | .raised => True
  | .note _ next => next.Blocks P
  | .block b body next => P b ∧ body.Blocks P ∧ next.Blocks P
  | .spawn child next => child.Blocks P ∧ next.Blocks P
  | .guarded body handler next => body.Blocks P ∧ handler.Blocks P ∧ next.Blocks P

/-- The notes that wait in the frames of a task. -/
def waiting : ν → List (Frame β ε ν) → Multiset (ε × ν)
  | _, [] => 0
  | _, .leave old next :: frames => next.lexical enter old + waiting old frames
  | value, .guard handler next :: frames =>
    handler.lexical enter value + next.lexical enter value + waiting value frames

/-- The notes a task has yet to make or to pass over. -/
def Task.ahead (t : Task β ε ν) : Multiset (ε × ν) :=
  t.prog.lexical enter t.value + waiting enter t.value t.frames

/-- An exception goes up through the frames: each block resets the variable, the first guard runs
    its handler. -/
def unwind : ν → List (Frame β ε ν) → Task β ε ν × Multiset (ε × ν)
  | value, [] => (⟨value, .done, []⟩, 0)
  | _, .leave old next :: frames =>
    let rest := unwind old frames
    (rest.1, next.lexical enter old + rest.2)
  | value, .guard handler next :: frames => (⟨value, handler, .leave value next :: frames⟩, 0)

/-- An exception in a task, at the point it has come to. -/
def Task.fail (t : Task β ε ν) : Outcome β ε ν :=
  let up := unwind enter t.value t.frames
  ⟨up.1, [], [], t.prog.lexical enter t.value + up.2⟩

/-- One step of a task; `none` once it has ended. -/
def Task.advance (t : Task β ε ν) : Option (Outcome β ε ν) :=
  match t.prog with
  | .note e next => some ⟨{ t with prog := next }, [], [(e, t.value)], 0⟩
  | .block b body next =>
    some ⟨⟨enter b t.value, body, .leave t.value next :: t.frames⟩, [], [], 0⟩
  | .spawn child next => some ⟨{ t with prog := next }, [⟨t.value, child, []⟩], [], 0⟩
  | .guarded body handler next =>
    some ⟨{ t with prog := body, frames := .guard handler next :: t.frames }, [], [], 0⟩
  | .raised => some (t.fail enter)
  | .done => match t.frames with
    | [] => none
    | .leave old next :: frames => some ⟨⟨old, next, frames⟩, [], [], 0⟩
    | .guard handler next :: frames =>
      some ⟨⟨t.value, next, frames⟩, [], [], handler.lexical enter t.value⟩

/-- The tasks once the one at that place did something. -/
def Tasks.settle (s : Tasks β ε ν) (i : ℕ) (out : Outcome β ε ν) : Tasks β ε ν :=
  ⟨s.tasks.set i out.task ++ out.spawned, s.notes ++ out.made, s.skipped + out.skipped⟩

def tasksStep (s : Tasks β ε ν) : TaskAction → Option (Tasks β ε ν)
  | .advance i => (s.tasks[i]?).bind fun t => (t.advance enter).map (s.settle i)
  | .fail i => (s.tasks[i]?).map fun t => s.settle i (t.fail enter)

/-- One task, at the beginning of a program. -/
def Tasks.start (value : ν) (prog : Prog β ε) : Tasks β ε ν := ⟨[⟨value, prog, []⟩], [], 0⟩

/-- Every note that was made, passed over, or is still ahead. -/
def Tasks.account (s : Tasks β ε ν) : Multiset (ε × ν) :=
  (s.notes : Multiset (ε × ν)) + s.skipped + (s.tasks.map fun t => t.ahead enter).sum

/-- Everything a task had ahead is accounted for in what it did. -/
def Balanced (t : Task β ε ν) (out : Outcome β ε ν) : Prop :=
  t.ahead enter = out.task.ahead enter + (out.spawned.map fun t => t.ahead enter).sum +
    (out.made : Multiset (ε × ν)) + out.skipped

@[simp] theorem map_fst_lexical (value : ν) (prog : Prog β ε) :
    (prog.lexical enter value).map Prod.fst = prog.events := by
  induction prog generalizing value with
  | done => rfl
  | raised => rfl
  | note e next ih => rw [Prog.lexical, Multiset.map_cons, ih, Prog.events]
  | block b body next ihb ihn => rw [Prog.lexical, Multiset.map_add, ihb, ihn, Prog.events]
  | spawn child next ihc ihn => rw [Prog.lexical, Multiset.map_add, ihc, ihn, Prog.events]
  | guarded body handler next ihb ihh ihn =>
    rw [Prog.lexical, Multiset.map_add, Multiset.map_add, ihb, ihh, ihn, Prog.events]

variable {enter}

/-- What the blocks keep of the value holds of the value of every note. -/
theorem lexical_values {P : β → Prop} (Inv : ν → Prop)
    (henter : ∀ b value, P b → Inv value → Inv (enter b value)) {prog : Prog β ε}
    (h : prog.Blocks P) {value : ν} (hvalue : Inv value) :
    ∀ note ∈ prog.lexical enter value, Inv note.2 := by
  induction prog generalizing value with
  | done => simp [Prog.lexical]
  | raised => simp [Prog.lexical]
  | note e next ih =>
    intro note hnote
    rcases Multiset.mem_cons.mp hnote with rfl | hnext
    · exact hvalue
    · exact ih h hvalue note hnext
  | block b body next ihb ihn =>
    obtain ⟨hb, hbody, hnext⟩ := h
    intro note hnote
    rcases Multiset.mem_add.mp hnote with hin | hin
    · exact ihb hbody (henter b value hb hvalue) note hin
    · exact ihn hnext hvalue note hin
  | spawn child next ihc ihn =>
    intro note hnote
    rcases Multiset.mem_add.mp hnote with hin | hin
    · exact ihc h.1 hvalue note hin
    · exact ihn h.2 hvalue note hin
  | guarded body handler next ihb ihh ihn =>
    intro note hnote
    rcases Multiset.mem_add.mp hnote with hin | hin
    · rcases Multiset.mem_add.mp hin with hin | hin
      · exact ihb h.1 hvalue note hin
      · exact ihh h.2.1 hvalue note hin
    · exact ihn h.2.2 hvalue note hin

/-- An exception resets the variable block by block, so what waits keeps its values. -/
theorem unwind_ahead (value : ν) (frames : List (Frame β ε ν)) :
    waiting enter value frames =
      (unwind enter value frames).1.ahead enter + (unwind enter value frames).2 := by
  induction frames generalizing value with
  | nil => rfl
  | cons frame frames ih =>
    cases frame with
    | leave old next =>
      rw [waiting, unwind, ih old]
      exact add_left_comm _ _ _
    | guard handler next =>
      rw [waiting, unwind, add_zero, Task.ahead, waiting]
      exact add_assoc _ _ _

theorem balanced_fail (t : Task β ε ν) : Balanced enter t (t.fail enter) := by
  rw [Balanced, Task.ahead, unwind_ahead, Task.fail]
  simp only [List.map_nil, List.sum_nil, Multiset.coe_nil, add_zero]
  exact add_left_comm _ _ _

/-- STEP: a task makes the notes it has ahead, under the values they have in the text. -/
theorem balanced_advance {t : Task β ε ν} {out : Outcome β ε ν} (h : t.advance enter = some out) :
    Balanced enter t out := by
  obtain ⟨value, prog, frames⟩ := t
  cases prog with
  | note e next =>
    obtain rfl := Option.some.inj h
    simp only [Balanced, Task.ahead, Prog.lexical, List.map_nil, List.sum_nil, add_zero,
      Multiset.coe_singleton, ← Multiset.singleton_add]
    rw [add_assoc, add_comm]
  | block b body next =>
    obtain rfl := Option.some.inj h
    simp only [Balanced, Task.ahead, Prog.lexical, waiting, List.map_nil, List.sum_nil,
      Multiset.coe_nil, add_zero]
    exact add_assoc _ _ _
  | spawn child next =>
    obtain rfl := Option.some.inj h
    simp only [Balanced, Task.ahead, Prog.lexical, waiting, List.map_cons, List.map_nil,
      List.sum_cons, List.sum_nil, Multiset.coe_nil, add_zero]
    rw [add_assoc, add_comm]
  | guarded body handler next =>
    obtain rfl := Option.some.inj h
    simp only [Balanced, Task.ahead, Prog.lexical, waiting, List.map_nil, List.sum_nil,
      Multiset.coe_nil, add_zero, add_assoc]
  | raised =>
    obtain rfl := Option.some.inj h
    exact balanced_fail _
  | done =>
    cases frames with
    | nil => cases h
    | cons frame frames =>
      cases frame with
      | leave old next =>
        obtain rfl := Option.some.inj h
        simp [Balanced, Task.ahead, Prog.lexical, waiting]
      | guard handler next =>
        obtain rfl := Option.some.inj h
        simp only [Balanced, Task.ahead, Prog.lexical, waiting, List.map_nil, List.sum_nil,
          Multiset.coe_nil, add_zero, zero_add, add_assoc]
        rw [add_comm, add_assoc]

/-- A sum with one of its terms exchanged. -/
theorem sum_map_set {α : Type*} {M : Type*} [AddCommMonoid M] (f : α → M) {l : List α} {i : ℕ}
    {a : α} (h : l[i]? = some a) (b : α) :
    ((l.set i b).map f).sum + f a = (l.map f).sum + f b := by
  induction l generalizing i with
  | nil => simp at h
  | cons first l ih =>
    cases i with
    | zero =>
      obtain rfl : first = a := by simpa using h
      simp only [List.set_cons_zero, List.map_cons, List.sum_cons]
      rw [add_assoc, add_comm (f b), add_comm _ (f first), add_assoc]
    | succ i =>
      simp only [List.set_cons_succ, List.map_cons, List.sum_cons, add_assoc]
      rw [ih (by simpa using h)]

theorem mem_sum_map {α ι : Type*} {f : ι → Multiset α} {l : List ι} {a : α} :
    a ∈ (l.map f).sum ↔ ∃ i ∈ l, a ∈ f i := by
  induction l with
  | nil => simp
  | cons i l ih => simp [ih]

/-- What a balanced step of one task leaves of the account. -/
theorem account_settle {s : Tasks β ε ν} {i : ℕ} {t : Task β ε ν} {out : Outcome β ε ν}
    (ht : s.tasks[i]? = some t) (h : Balanced enter t out) :
    (s.settle i out).account enter = s.account enter := by
  have hset := sum_map_set (fun t => t.ahead enter) ht out.task
  refine add_right_cancel (b := t.ahead enter) ?_
  simp only [Tasks.account, Tasks.settle, List.map_append, List.sum_append, ← Multiset.coe_add]
  calc (s.notes : Multiset (ε × ν)) + out.made + (s.skipped + out.skipped) +
        (((s.tasks.set i out.task).map fun t => t.ahead enter).sum +
          (out.spawned.map fun t => t.ahead enter).sum) + t.ahead enter
      = (s.notes : Multiset (ε × ν)) + out.made + (s.skipped + out.skipped) +
          (out.spawned.map fun t => t.ahead enter).sum +
          (((s.tasks.set i out.task).map fun t => t.ahead enter).sum + t.ahead enter) := by abel
    _ = (s.notes : Multiset (ε × ν)) + out.made + (s.skipped + out.skipped) +
          (out.spawned.map fun t => t.ahead enter).sum +
          ((s.tasks.map fun t => t.ahead enter).sum + out.task.ahead enter) := by rw [hset]
    _ = (s.notes : Multiset (ε × ν)) + s.skipped + (s.tasks.map fun t => t.ahead enter).sum +
          (out.task.ahead enter + (out.spawned.map fun t => t.ahead enter).sum +
            (out.made : Multiset (ε × ν)) + out.skipped) := by abel
    _ = (s.notes : Multiset (ε × ν)) + s.skipped + (s.tasks.map fun t => t.ahead enter).sum +
          t.ahead enter := by rw [← h]

theorem account_step (s : Tasks β ε ν) (a : TaskAction) (t : Tasks β ε ν)
    (h : tasksStep enter s a = some t) : t.account enter = s.account enter := by
  cases a with
  | advance i =>
    obtain ⟨task, htask, hmap⟩ := Option.bind_eq_some_iff.mp h
    obtain ⟨out, hout, rfl⟩ := Option.map_eq_some_iff.mp hmap
    exact account_settle htask (balanced_advance hout)
  | fail i =>
    obtain ⟨task, htask, rfl⟩ := Option.map_eq_some_iff.mp h
    exact account_settle htask (balanced_fail task)

/-- RUN: whatever the order of the steps and wherever a task fails, the notes made, those passed
    over and those still ahead are the program's, each under the value its blocks give it. -/
theorem scoped_run {value : ν} {prog : Prog β ε} {as : List TaskAction} {t : Tasks β ε ν}
    (h : runFrom (tasksStep enter) (Tasks.start value prog) as = some t) :
    t.account enter = prog.lexical enter value := by
  have hstart : (Tasks.start value prog).account enter = prog.lexical enter value := by
    simp [Tasks.account, Tasks.start, Task.ahead, waiting]
  have hstep : ∀ s a t, s.account enter = prog.lexical enter value →
      tasksStep enter s a = some t → t.account enter = prog.lexical enter value :=
    fun s a t hs hnext => (account_step s a t hnext).trans hs
  exact inv_run hstep hstart h

/-- A note that was made stands in the program, under the value it was made with. -/
theorem notes_le {value : ν} {prog : Prog β ε} {as : List TaskAction} {t : Tasks β ε ν}
    (h : runFrom (tasksStep enter) (Tasks.start value prog) as = some t) :
    (t.notes : Multiset (ε × ν)) ≤ prog.lexical enter value := by
  rw [← scoped_run h, Tasks.account, add_assoc]
  exact Multiset.le_add_right _ _

end

end LunaCore.Schemes
