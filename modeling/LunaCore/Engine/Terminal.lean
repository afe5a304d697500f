import LunaCore.Engine.ChatRunner

/-! Does a resumed turn end as it would have, had it not waited for approval?

    A logical turn is what one send asks for, however often it is suspended. `run` ends it when a
    terminal tool succeeded, with that tool's inputs, and counts its model calls; `resume` drops the
    terminal value of the calls it runs, and starts a `run` that counts from zero. -/

namespace LunaCore.Engine
open LunaCore.Values LunaCore.Chat LunaCore.Schemes

/-- A conversation with the locals of the logical turn. `terminal` is `terminal_value` of the calls
    at work, `returned` what the turn that just ended returned of it. Ghosts: the model calls `made`
    in the logical turn, and those `carried` over from before it last resumed. -/
structure Logical where
  session : Session
  terminal : Option Dict
  returned : Option Dict
  made : ℕ
  carried : ℕ

/-- `terminal_value` once a call of the turn gave its outcome. -/
def Turn.terminalValue (t : Turn) (terminal : Option Dict) (isError : Bool) : Option Dict :=
  match t.pc with
  | .executing ((_, use) :: _) _ _ =>
    if !rejects (t.decision use) && endsTurn (dispatcherOf t.setup.systemByName use.name) isError then
      some (effectiveInput (t.decision use) use)
    else terminal
  | _ => terminal

/-- `run` returns the terminal value; `resume` drops it. -/
def Turn.returns (t : Turn) (terminal : Option Dict) : Option Dict :=
  match t.decisions with
  | none => terminal
  | some _ => none

/-- What a step does to the locals of the logical turn. -/
def Logical.after (l : Logical) (t : Session) : SessionAction → Logical
  | .send .. | .handOff .. => ⟨t, none, none, 0, 0⟩
  | .work (.reply _) => ⟨t, none, none, l.made + 1, l.carried⟩
  | .work (.interrupt ..) => ⟨t, none, none, l.made + 1, l.carried⟩
  | .work .takeDecisions => ⟨t, none, none, l.made, l.carried⟩
  | .work (.runTool (.result _ isError)) =>
    ⟨t, l.session.turn.elim none fun turn => turn.terminalValue l.terminal isError, none, l.made,
      l.carried⟩
  | .work .saveResults =>
    ⟨t, none, l.session.turn.elim none fun turn => turn.returns l.terminal, l.made, l.carried⟩
  | .resume .. => ⟨t, none, none, l.made, l.made⟩
  | _ => ⟨t, l.terminal, none, l.made, l.carried⟩

def logicalStep (l : Logical) (a : SessionAction) : Option Logical :=
  (sessionStep l.session a).map fun t => l.after t a

def Logical.created : Logical := ⟨.created, none, none, 0, 0⟩

/-- The results a turn has so far. -/
def Turn.results (t : Turn) : List Block :=
  match t.pc with
  | .executing _ results _ => results
  | _ => []

/-- The loop continues with the results of the turn's calls. -/
def Continues (t : Turn) (s : Session) : Prop :=
  ∃ turn ∈ s.turn, turn.pc = .calling ∧ turn.messages = t.messages ++ [(Role.user, t.results)]

/-- The turn does what it would have done ungated. Once its calls have run, it ends and returns the
    inputs of the terminal tool that succeeded, if one did; else the loop continues with the results,
    unless the user rejected all of it without a reason. And the logical turn calls the model at
    most `MAX_TOOL_ITERATIONS` times. -/
def AsUngated (l : Logical) (a : SessionAction) (l' : Logical) : Prop :=
  match a with
  | .work .saveResults => ∀ t ∈ l.session.turn,
      (∀ input ∈ l.terminal, l'.returned = some input ∧ l'.session.turn = none) ∧
      (l.terminal = none → (∀ decisions ∈ t.decisions, shouldReinvoke t.uses decisions) →
        Continues t l'.session)
  | .work (.reply _) | .work (.interrupt ..) => l'.made ≤ maxToolIterations
  | _ => True

/-- No call a resume ran is a terminal tool that succeeded; and a model call is left, counting those
    made before the turn resumed with those made since. -/
def Unsplit (l : Logical) (a : SessionAction) : Prop :=
  match a with
  | .work .saveResults => ∀ t ∈ l.session.turn, t.decisions.isSome → l.terminal = none
  | .work (.reply _) | .work (.interrupt ..) => ∀ t ∈ l.session.turn,
      l.carried + t.iteration < maxToolIterations
  | _ => True

/-! ### The invariant -/

/-- What a turn's own locals say of those of the logical turn. -/
def Counts (t : Turn) (l : Logical) : Prop :=
  match t.pc with
  | .beginning _ => t.decisions = none ∧ l.made = l.carried + t.iteration
  | .calling => t.decisions = none ∧ l.made = l.carried + t.iteration
  | .wording | .suspending => t.decisions = none
  | .resuming => l.made = l.carried
  | .executing _ _ terminal => terminal = l.terminal.isSome ∧
      (t.decisions = none → l.made = l.carried + t.iteration + 1) ∧
      (t.decisions.isSome → l.made = l.carried)

def Counted (l : Logical) : Prop := ∀ t ∈ l.session.turn, Counts t l

theorem counted_created : Counted .created := by simp [Counted, Logical.created, Session.created,
  Session.turn]

/-- The turn after a step, where one is. -/
theorem turn_afterTurn (path : Path) (after : After) :
    (afterTurn path after).turn = after.2.getLeft? := by
  rw [afterTurn, Session.turn]
  obtain ⟨s, t | ended⟩ := after
  · rfl
  · cases ended with
    | aborted => cases path.viaSend <;> rfl
    | _ => rfl

/-- One more call keeps the terminal value in step with the runner's flag. -/
theorem runTool_counts {s : Record} {t : Turn} {l : Logical} {call : CallId} {use : ToolUse}
    {rest : List (CallId × ToolUse)} {results : List Block} {terminal : Bool}
    (hpc : t.pc = .executing ((call, use) :: rest) results terminal) (hc : Counts t l)
    (outcome : ToolOutcome) (u : Session)
    (hl : l.session.turn = some t) :
    ∀ t' ∈ (runTool s t call use rest results terminal outcome).2.getLeft?,
      Counts t' (l.after u (.work (.runTool outcome))) := by
  simp only [Counts, hpc] at hc
  obtain ⟨hterminal, hrun, hresume⟩ := hc
  intro t' ht'
  unfold runTool at ht'
  dsimp only at ht'
  cases hrejects : rejects (t.decision use) with
  | true =>
    rw [hrejects, if_pos rfl] at ht'
    obtain rfl : _ = t' := Option.some.inj ht'
    cases outcome with
    | raised => exact ⟨hterminal, hrun, hresume⟩
    | result content isError =>
      refine ⟨?_, hrun, hresume⟩
      simp [Logical.after, hl, Turn.terminalValue, hpc, hrejects, hterminal]
  | false =>
    rw [hrejects, if_neg Bool.false_ne_true] at ht'
    cases outcome with
    | raised => cases ht'
    | result content isError =>
      obtain rfl : _ = t' := Option.some.inj ht'
      refine ⟨?_, hrun, hresume⟩
      simp only [Logical.after, hl, Option.elim_some, Turn.terminalValue, hpc, hrejects,
        Bool.not_false, Bool.true_and]
      cases endsTurn (dispatcherOf t.setup.systemByName use.name) isError with
      | true => simp
      | false => simpa using hterminal

/-- Past the results, the loop of `run` counts on, and a resumed turn starts a new one. -/
theorem saveResults_counts {s : Record} {t : Turn} {l : Logical} {results : List Block}
    {terminal : Bool} (hpc : t.pc = .executing [] results terminal) (hc : Counts t l)
    (u : Session) : ∀ t' ∈ (saveResults s t results terminal).2.getLeft?,
      Counts t' (l.after u (.work .saveResults)) := by
  simp only [Counts, hpc] at hc
  obtain ⟨-, hrun, hresume⟩ := hc
  intro t' ht'
  cases hd : t.decisions with
  | none =>
    have hmade := hrun hd
    simp only [saveResults, hd] at ht'
    split at ht'
    · cases ht'
    · obtain rfl := Option.some.inj ht'
      refine ⟨rfl, ?_⟩
      simp only [Logical.after]
      omega
  | some decisions =>
    have hmade := hresume (by simp [hd])
    simp only [saveResults, hd] at ht'
    split at ht'
    · obtain rfl := Option.some.inj ht'
      exact ⟨rfl, hmade⟩
    · cases ht'

/-- A step of the turn keeps its count in step with that of the logical turn. -/
theorem counts_turnStep {s : Record} {t : Turn} {l : Logical} {a : TurnAction} {after : After}
    (hl : l.session.turn = some t) (hc : Counts t l) (u : Session)
    (h : turnStep s t a = some after) :
    ∀ t' ∈ after.2.getLeft?, Counts t' (l.after u (.work a)) := by
  intro t' ht'
  cases turnStep_cases h with
  | userSaved hpc =>
    simp only [Counts, hpc] at hc
    obtain rfl := Option.some.inj ht'
    exact hc
  | nothingToSave hpc =>
    simp only [Counts, hpc] at hc
    obtain rfl := Option.some.inj ht'
    exact hc
  | called hpc _ hnext =>
    simp only [Counts, hpc] at hc
    obtain ⟨hnone, hmade⟩ := hc
    obtain rfl := Option.some.inj ht'
    rcases hnext with ⟨rfl | rfl, -⟩ | rfl
    · exact hnone
    · exact hnone
    · exact ⟨rfl, fun _ => congrArg (· + 1) hmade, fun hsome => by simp [hnone] at hsome⟩
  | worded hpc _ =>
    simp only [Counts, hpc] at hc
    obtain rfl := Option.some.inj ht'
    exact hc
  | resumed hpc _ =>
    simp only [Counts, hpc] at hc
    obtain rfl := Option.some.inj ht'
    exact ⟨rfl, fun hnone => (by cases hnone), fun _ => hc⟩
  | rejected hpc _ =>
    have hafter := by simpa [turnStep, hpc] using h
    exact runTool_counts hpc hc _ u hl t' (by rw [hafter]; exact ht')
  | ran hpc _ _ =>
    have hafter := by simpa [turnStep, hpc] using h
    exact runTool_counts hpc hc _ u hl t' (by rw [hafter]; exact ht')
  | resultsSaved hpc _ =>
    have hafter := by simpa [turnStep, hpc] using h
    exact saveResults_counts hpc hc u t' (by rw [hafter]; exact ht')
  | answered | interrupted | exceeded | suspended | refused | notResumed | failed => cases ht'

/-- A step keeps the count of the turn at work in step with that of the logical turn. -/
theorem counted_step (l : Logical) (a : SessionAction) (l' : Logical) (hc : Counted l)
    (h : logicalStep l a = some l') : Counted l' := by
  obtain ⟨t, ht, rfl⟩ := Option.map_eq_some_iff.mp h
  obtain ⟨session, terminal, returned, made, carried⟩ := l
  intro turn hturn
  cases sessionStep_cases ht with
  | sent =>
    obtain rfl : _ = turn := Option.some.inj hturn
    exact ⟨rfl, rfl⟩
  | @worked s t₀ path a after hafter =>
    have hturn' : turn ∈ after.2.getLeft? := by
      rw [← turn_afterTurn path after]
      cases a with
      | runTool outcome => cases outcome <;> exact hturn
      | _ => exact hturn
    exact counts_turnStep rfl (hc t₀ rfl) _ hafter turn hturn'
  | handedOff =>
    obtain rfl : _ = turn := Option.some.inj hturn
    exact ⟨rfl, rfl⟩
  | resumes =>
    obtain rfl : _ = turn := Option.some.inj hturn
    exact rfl
  | finalized | responded | decided | waits | lost => cases hturn

/-! ### One step, and a run -/

/-- Once the calls have run, a step does what an ungated turn does just when no terminal tool of a
    resumed batch succeeded. -/
theorem saveResults_asUngated {s : Record} {t : Turn} {path : Path} {l : Logical} {after : After}
    (hsession : l.session = ⟨s, some (.turn t path)⟩) (hc : Counts t l)
    (h : turnStep s t .saveResults = some after) :
    AsUngated l (.work .saveResults) (l.after (afterTurn path after) (.work .saveResults)) ↔
      (t.decisions.isSome → l.terminal = none) := by
  have hl : l.session.turn = some t := by rw [hsession]; rfl
  cases turnStep_cases h with
  | @resultsSaved results terminal next hpc _ =>
    simp only [Counts, hpc] at hc
    have hafter : saveResults s t results terminal = (saveMessage s .user results false, next) := by
      simpa [turnStep, hpc] using h
    simp only [AsUngated, hl, Option.mem_some_iff, forall_eq', Logical.after, Option.elim_some,
      Continues, turn_afterTurn, ← hafter]
    cases hd : t.decisions with
    | none =>
      refine iff_of_true ⟨fun input hinput => ?_, fun hnone _ => ?_⟩ (by simp)
      · have hflag : terminal = true := by rw [hc.1, hinput]; rfl
        exact ⟨by simpa [Turn.returns, hd] using hinput, by simp [saveResults, hd, hflag]⟩
      · have hflag : terminal = false := by rw [hc.1, hnone]; rfl
        simp [saveResults, hd, hflag, Turn.results, hpc]
    | some decisions =>
      constructor
      · rintro ⟨hends, -⟩ -
        cases hterminal : l.terminal with
        | none => rfl
        | some input => simpa [Turn.returns, hd] using (hends input hterminal).1
      · intro hnone
        refine ⟨fun input hinput => ?_, fun _ hagain => ?_⟩
        · simp [hnone rfl] at hinput
        · simp [saveResults, hd, hagain decisions rfl, Turn.results, hpc]

theorem asUngated_iff (l : Logical) (a : SessionAction) (l' : Logical) (hc : Counted l)
    (h : logicalStep l a = some l') : AsUngated l a l' ↔ Unsplit l a := by
  obtain ⟨t, ht, rfl⟩ := Option.map_eq_some_iff.mp h
  have hcalls : ∀ turn : Turn, l.session.turn = some turn → turn.pc = .calling →
      (l.made + 1 ≤ maxToolIterations ↔
        ∀ turn ∈ l.session.turn, l.carried + turn.iteration < maxToolIterations) := by
    intro turn hturn hpc
    have hcount := hc turn hturn
    simp only [Counts, hpc] at hcount
    constructor
    · intro hmade other hother
      obtain rfl : turn = other := Option.some.inj (hturn.symm.trans hother)
      omega
    · intro hall
      have hturns := hall turn hturn
      omega
  obtain ⟨session, terminal, returned, made, carried⟩ := l
  cases sessionStep_cases ht with
  | @worked s turn path a after hafter =>
    cases a with
    | saveResults =>
      refine (saveResults_asUngated rfl (hc turn rfl) hafter).trans ?_
      simp [Unsplit, Session.turn]
    | reply blocks =>
      have hpc : turn.pc = .calling := by
        cases turnStep_cases hafter with
        | answered hpc _ _ => exact hpc
        | called hpc _ _ => exact hpc
      exact hcalls turn rfl hpc
    | interrupt streamed aborted =>
      have hpc : turn.pc = .calling := by
        cases turnStep_cases hafter with
        | interrupted hpc _ _ _ => exact hpc
      exact hcalls turn rfl hpc
    | _ => exact Iff.rfl
  | _ => exact Iff.rfl

/-- EXACT CONDITION: in every conversation, a resumed turn ends as it would have ungated, and each
    logical turn keeps to its bound of model calls, just when no terminal tool of a resumed batch
    succeeds and no logical turn has spent its calls across its suspensions. -/
theorem asUngated_run_iff (as : List SessionAction) :
    EveryStep logicalStep AsUngated .created as ↔ Guarded logicalStep Unsplit .created as :=
  everyStep_iff_guarded (fun l a l' hc _ h => counted_step l a l' hc h) asUngated_iff
    counted_created

/-! ### A gated terminal tool -/

/-- An agent that may hand the conversation over, once the user agrees. -/
def greeter : Agent := ⟨"greeter", [], [⟨"transfer_to_agent", false, true⟩]⟩

def hall : Toolbox := ⟨[⟨"transfer_to_agent", .catalog, true⟩], []⟩

def noCompaction : CompactionCall := ⟨none, [], fun _ => none, fun _ => none, "m", "now"⟩

/-- The hand-over is approved and succeeds. -/
def approvedTransfer : List SessionAction :=
  [.send greeter hall [.text "a doctor, please"] noCompaction,
    .work .saveUser,
    .work (.reply [.text "May I?",
      .toolUse ⟨some "tc_0", "transfer_to_agent", [("agent", .str "doctor")]⟩]),
    .work .suspend,
    .decide 0 ⟨.approved, none, none⟩,
    .resume greeter hall,
    .work .takeDecisions,
    .work (.runTool (.result "transferred" false))]

/-- The resumed turn does not end there: the model is called again. -/
theorem terminal_dropped :
    ¬ EveryStep logicalStep AsUngated .created (approvedTransfer ++ [.work .saveResults]) := by
  intro h
  have hstep := EveryStep.at h (rfl : runFrom logicalStep .created approvedTransfer = some _) rfl
  have hreturned := ((hstep _ rfl).1 [("agent", .str "doctor")] rfl).1
  cases hreturned

end LunaCore.Engine
