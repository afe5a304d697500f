import LunaCore.Chat.Message
import LunaCore.Providers.StreamedTurn
import LunaCore.Schemes.Machine
import LunaCore.Schemes.Parties

/-! The titles of one conversation: what its user calls it, and what the auto-title tasks do.

    a turn that found no title ─▶ task:  check ─▶ messages ─▶ the model ─▶ store ─▶ publish
    PATCH by the user:                   SELECT ─▶ store

    A task looks at the title once, before the model is asked; the store writes over whatever is in
    the row by then, as `db.get` gives back the object the session loaded at the check. The exact
    condition is about what others store between the two. -/

namespace LunaCore.Chat.AutoTitle
open LunaCore.Values LunaCore.Schemes
open LunaCore.Providers (strip)

/-! ### The text of a title -/

def isQuote (c : Char) : Bool := c = '"' ∨ c.toNat = 39

/-- `text.strip("\"'")`. -/
def stripQuotes (text : String) : String :=
  String.ofList ((text.toList.dropWhile isQuote).reverse.dropWhile isQuote).reverse

/-- Where `str.splitlines` cuts. -/
def isLineBreak (c : Char) : Bool :=
  let n := c.toNat
  decide (10 ≤ n ∧ n ≤ 13 ∨ 28 ≤ n ∧ n ≤ 30 ∨ n = 133 ∨ n = 8232 ∨ n = 8233)

/-- `text.splitlines()[0]` of a text that does not begin with a line break. -/
def firstLine (text : String) : String :=
  String.ofList (text.toList.takeWhile fun c => !isLineBreak c)

/-- `text[:n]`. -/
def clip (n : ℕ) (text : String) : String := String.ofList (text.toList.take n)

/-- `_clean_title`. -/
def cleanTitle (raw : Option String) (fallback : String) : String :=
  let text := strip (stripQuotes (strip (raw.getD "")))
  let line := if text = "" then "" else strip (firstLine text)
  strip (clip 60 (if line = "" then strip fallback else line))

/-- The text blocks of a message, joined by a space where they are not empty. -/
def plainText (message : ConversationMessage) : String :=
  strip (" ".intercalate ((message.content.filterMap fun
    | .text text => some text
    | _ => none).filter (· ≠ "")))

/-- `_first_user_text`: the first user message that has any. -/
def firstUserText (messages : List ConversationMessage) : Option String :=
  ((messages.filter (·.role = .user)).map plainText).find? (· ≠ "")

/-! ### The conversation and who writes its title -/

/-- `not convo.title`. -/
def untitled (title : Option String) : Bool := title = none ∨ title = some ""

/-- A turn, with its snapshot of `conversation.title is None`. -/
structure Turn where
  needsTitle : Bool
  /-- For proofs only: how many titles had been stored when it began. -/
  started : ℕ
  deriving DecidableEq

/-- The next statement of a task; `loaded` is the title its session has. -/
inductive Pc where
  | checking
  | reading (loaded : Option String)
  | generating (loaded : Option String) (firstUser : String)
  | storing (loaded : Option String) (title : String)
  | publishing (title : String)
  | ended
  deriving DecidableEq

/-- `maybe_title_conversation`. -/
structure Task where
  turn : Turn
  pc : Pc
  /-- For proofs only: the titles others have stored since its check, the last one first. -/
  since : List (Option String)
  deriving DecidableEq

/-- A PATCH past its SELECT. -/
structure Patch where
  loaded : Option String
  title : Option String
  isOpen : Bool
  deriving DecidableEq

structure State where
  /-- The title in the row; `none` when the conversation is deleted. -/
  row : Option (Option String)
  turns : List Turn
  tasks : List Task
  patches : List Patch
  /-- The `conversation_titled` events. -/
  published : List String
  /-- For proofs only: how many titles were stored. -/
  stored : ℕ

inductive Action where
  | beginTurn
  | spawn (turn : ℕ)
  | check (i : ℕ)
  | read (i : ℕ) (messages : List ConversationMessage)
  | generate (i : ℕ) (raw : Option String)
  | store (i : ℕ)
  | publish (i : ℕ)
  | patch (title : Option String)
  | commit (j : ℕ)
  | delete

def start (title : Option String) : State := ⟨some title, [], [], [], [], 0⟩

/-- The UPDATE of a session that loaded one title and sets another; none where they are the same. -/
def State.put (s : State) (loaded title : Option String) : Option State :=
  if title = loaded then some s
  else s.row.map fun _ => { s with
    row := some title
    tasks := s.tasks.map fun task => { task with since := title :: task.since }
    stored := s.stored + 1 }

def State.move (s : State) (i : ℕ) (task : Task) (pc : Pc) : State :=
  { s with tasks := s.tasks.set i { task with pc := pc } }

/-- The check: gone or titled ends the task. -/
def check (s : State) (i : ℕ) (task : Task) : State :=
  match s.row with
  | none => s.move i task .ended
  | some title =>
    if untitled title then
      { s with tasks := s.tasks.set i { task with pc := .reading title, since := [] } }
    else s.move i task .ended

def step (s : State) : Action → Option State
  | .beginTurn => s.row.map fun title =>
      { s with turns := s.turns ++ [⟨title = none, s.stored⟩] }
  | .spawn k => (s.turns[k]?).bind fun turn =>
      if turn.needsTitle then some { s with tasks := s.tasks ++ [⟨turn, .checking, []⟩] } else none
  | .check i => (s.tasks[i]?).bind fun task =>
      if task.pc = .checking then some (check s i task) else none
  | .read i messages => (s.tasks[i]?).bind fun task => match task.pc with
      | .reading loaded => some (match firstUserText messages with
        | none => s.move i task .ended
        | some text => s.move i task (.generating loaded text))
      | _ => none
  | .generate i raw => (s.tasks[i]?).bind fun task => match task.pc with
      | .generating loaded firstUser => some
          (s.move i task (.storing loaded (cleanTitle raw (clip 48 firstUser))))
      | _ => none
  | .store i => (s.tasks[i]?).bind fun task => match task.pc with
      | .storing loaded title => match s.row with
        | none => some (s.move i task .ended)
        | some _ => (s.move i task (.publishing title)).put loaded (some title)
      | _ => none
  | .publish i => (s.tasks[i]?).bind fun task => match task.pc with
      | .publishing title => some
          { s.move i task .ended with published := s.published ++ [title] }
      | _ => none
  | .patch title => s.row.map fun loaded =>
      { s with patches := s.patches ++ [⟨loaded, title, true⟩] }
  | .commit j => (s.patches[j]?).bind fun p =>
      if p.isOpen then State.put { s with patches := s.patches.set j { p with isOpen := false } }
        p.loaded p.title
      else none
  | .delete => some { s with row := none }

/-- The task is about to write its title over the one given. -/
def State.Overwrites (s : State) (i : ℕ) (task : Task) (current : Option String) : Prop :=
  s.tasks[i]? = some task ∧ s.row = some current ∧
    ∃ loaded title, task.pc = .storing loaded title ∧ some title ≠ loaded

/-- A generated title is stored where there is none, and over none that was set after the task's turn
    began. -/
structure Courteous (s : State) (a : Action) : Prop where
  vacant : ∀ i task current, a = .store i → s.Overwrites i task current → untitled current = true
  later : ∀ i task current, a = .store i → s.Overwrites i task current →
    untitled current = false → s.stored ≤ task.turn.started

/-- What was stored last since the task's check, if anything was, is no title. -/
def Undisturbed (s : State) (a : Action) : Prop :=
  ∀ i task current, a = .store i → s.Overwrites i task current →
    ∀ last ∈ task.since.head?, untitled last = true

/-- What the session of a task past its check has loaded. -/
def Pc.loaded : Pc → Option (Option String)
  | .reading loaded | .generating loaded _ | .storing loaded _ => some loaded
  | .checking | .publishing _ | .ended => none

/-- The row has what was stored last since the check, or still the title the check found. -/
def Task.Tracks (task : Task) (row : Option (Option String)) : Prop :=
  ∀ loaded, task.pc.loaded = some loaded → untitled loaded = true ∧
    ∀ current, row = some current → current = task.since.head?.getD loaded

def Tracked (s : State) : Prop := ∀ (i : ℕ) (task : Task), s.tasks[i]? = some task → task.Tracks s.row

theorem Task.Tracks.ended {turn : Turn} {pc : Pc} {since : List (Option String)}
    {row : Option (Option String)} (h : pc.loaded = none) : Task.Tracks ⟨turn, pc, since⟩ row :=
  fun loaded hloaded => by rw [h] at hloaded; cases hloaded

/-- A task that goes on with what it has loaded. -/
theorem Tracked.move {s : State} {i : ℕ} {task : Task} {pc : Pc} (hs : Tracked s)
    (hi : s.tasks[i]? = some task) (hpc : ∀ loaded, pc.loaded = some loaded →
      task.pc.loaded = some loaded) : Tracked (s.move i task pc) :=
  forall_moved hs fun loaded hloaded => hs i task hi loaded (hpc loaded hloaded)

/-- The row and all tasks learn of a title that is stored. -/
theorem Tracked.put {s t : State} {loaded title : Option String} (hs : Tracked s)
    (h : s.put loaded title = some t) : Tracked t := by
  unfold State.put at h
  split at h
  · exact Option.some.inj h ▸ hs
  · obtain ⟨_, _, rfl⟩ := Option.map_eq_some_iff.mp h
    intro i task hi found hfound
    rw [List.getElem?_map] at hi
    obtain ⟨old, hold, rfl⟩ := Option.map_eq_some_iff.mp hi
    refine ⟨(hs i old hold found hfound).1, fun current hcurrent => ?_⟩
    exact (Option.some.inj hcurrent).symm

theorem Tracked.check {s : State} {i : ℕ} {task : Task} (hs : Tracked s)
    (hi : s.tasks[i]? = some task) : Tracked (AutoTitle.check s i task) := by
  unfold AutoTitle.check
  cases hrow : s.row with
  | none => exact hs.move hi fun loaded hloaded => by cases hloaded
  | some title =>
    simp only
    split
    case isTrue htitle =>
      have htracks : Task.Tracks { task with pc := .reading title, since := [] } s.row := by
        intro loaded hloaded
        obtain rfl : title = loaded := Option.some.inj hloaded
        refine ⟨htitle, fun current hcurrent => ?_⟩
        exact (Option.some.inj (hrow.symm.trans hcurrent)).symm
      rw [← hrow]
      exact forall_moved (p := fun _ task => Task.Tracks task s.row) hs htracks
    case isFalse => exact hs.move hi fun loaded hloaded => by cases hloaded

/-- A task that has not come to its check knows of no title. -/
theorem Tracked.spawn {s : State} {turn : Turn} (hs : Tracked s) :
    Tracked { s with tasks := s.tasks ++ [⟨turn, .checking, []⟩] } :=
  forall_joined hs (.ended rfl)

theorem Tracked.delete {s : State} (hs : Tracked s) : Tracked { s with row := none } :=
  fun i task hi loaded hloaded =>
    ⟨(hs i task hi loaded hloaded).1, fun _ hcurrent => by cases hcurrent⟩

theorem tracked_step {s t : State} {a : Action} (hs : Tracked s) (h : step s a = some t) :
    Tracked t := by
  cases a with
  | beginTurn =>
    obtain ⟨_, _, rfl⟩ := Option.map_eq_some_iff.mp h
    exact hs
  | spawn k =>
    obtain ⟨turn, _, h⟩ := Option.bind_eq_some_iff.mp h
    split at h
    · exact Option.some.inj h ▸ hs.spawn
    · cases h
  | check i =>
    obtain ⟨task, hi, h⟩ := Option.bind_eq_some_iff.mp h
    split at h
    · exact Option.some.inj h ▸ hs.check hi
    · cases h
  | read i messages =>
    obtain ⟨task, hi, h⟩ := Option.bind_eq_some_iff.mp h
    cases hpc : task.pc with
    | reading loaded =>
      simp only [hpc] at h
      obtain rfl := Option.some.inj h
      split
      · exact hs.move hi fun found hfound => by cases hfound
      · exact hs.move hi fun found hfound => hpc ▸ hfound
    | _ => simp [hpc] at h
  | generate i raw =>
    obtain ⟨task, hi, h⟩ := Option.bind_eq_some_iff.mp h
    cases hpc : task.pc with
    | generating loaded firstUser =>
      simp only [hpc] at h
      exact Option.some.inj h ▸ hs.move hi fun found hfound => hpc ▸ hfound
    | _ => simp [hpc] at h
  | store i =>
    obtain ⟨task, hi, h⟩ := Option.bind_eq_some_iff.mp h
    cases hpc : task.pc with
    | storing loaded title =>
      simp only [hpc] at h
      split at h
      · exact Option.some.inj h ▸ hs.move hi fun found hfound => by cases hfound
      · exact (hs.move hi fun found hfound => by cases hfound).put h
    | _ => simp [hpc] at h
  | publish i =>
    obtain ⟨task, hi, h⟩ := Option.bind_eq_some_iff.mp h
    cases hpc : task.pc with
    | publishing title =>
      simp only [hpc] at h
      have hended : Tracked (s.move i task .ended) :=
        hs.move hi fun found hfound => by cases hfound
      exact Option.some.inj h ▸ hended
    | _ => simp [hpc] at h
  | patch title =>
    obtain ⟨_, _, rfl⟩ := Option.map_eq_some_iff.mp h
    exact hs
  | commit j =>
    obtain ⟨p, _, h⟩ := Option.bind_eq_some_iff.mp h
    split at h
    · exact Tracked.put (s := { s with patches := s.patches.set j { p with isOpen := false } }) hs h
    · cases h
  | delete => exact Option.some.inj h ▸ hs.delete

/-- A store comes upon no title just when others have left none since the check. -/
theorem vacant_iff {s : State} {i : ℕ} {task : Task} {current : Option String} (hs : Tracked s)
    (h : s.Overwrites i task current) :
    untitled current = true ↔ ∀ last ∈ task.since.head?, untitled last = true := by
  obtain ⟨hi, hrow, loaded, title, hpc, _⟩ := h
  obtain ⟨huntitled, hcurrent⟩ := hs i task hi loaded (by rw [hpc]; rfl)
  rw [hcurrent current hrow]
  cases task.since.head? with
  | none => simpa using huntitled
  | some last => simp

theorem courteous_iff {s : State} {a : Action} (hs : Tracked s) :
    Courteous s a ↔ Undisturbed s a := by
  constructor
  · exact fun h i task current ha hover => (vacant_iff hs hover).mp (h.vacant i task current ha hover)
  · intro h
    have hvacant : ∀ i task current, a = .store i → s.Overwrites i task current →
        untitled current = true :=
      fun i task current ha hover => (vacant_iff hs hover).mpr (h i task current ha hover)
    refine ⟨hvacant, fun i task current ha hover htitled => ?_⟩
    rw [hvacant i task current ha hover] at htitled
    cases htitled

/-- EXACT CONDITION: the tasks of a conversation write over nobody's title just when, at each of
    their writes, nothing or no title is what others stored last since the task looked. -/
theorem courteous_run_iff (title : Option String) (run : List Action) :
    EveryStep step (fun s a _ => Courteous s a) (start title) run ↔
      Guarded step Undisturbed (start title) run := by
  have hstart : Tracked (start title) := fun i task hi => by cases hi
  exact everyStep_iff_guarded (P := fun s a _ => Courteous s a)
    (fun _ _ _ hs _ h => tracked_step hs h) (fun _ _ _ hs _ => courteous_iff hs) hstart

/-- The user renames the conversation while the model is asked for a title. -/
def renamedMeanwhile : List Action :=
  [.beginTurn, .spawn 0, .check 0, .read 0 [⟨1, .user, [.text "hi"], false⟩],
    .patch (some "Mine"), .commit 0, .generate 0 (some "Greetings")]

/-- The user's own title is replaced by the generated one. -/
theorem renamed_back :
    ¬ ∀ (title : Option String) (run : List Action),
      EveryStep step (fun s a _ => Courteous s a) (start title) run := by
  intro h
  have hstep := EveryStep.at (h none (renamedMeanwhile ++ [.store 0]))
    (rfl : runFrom step (start none) renamedMeanwhile = some _)
    (rfl : step _ (.store 0) = some _)
  have hover := hstep.vacant 0 _ (some "Mine") rfl ⟨rfl, rfl, none, "Greetings", rfl, by decide⟩
  exact absurd hover (by decide)

end LunaCore.Chat.AutoTitle
