import LunaCore.Flow.ScratchpadIterations

/-! What an `AbortSignalError` in one iteration stops.

    `gather` waits for all tasks before it is looked at what any of them raised, so nothing is
    cancelled: what stops the others is the abort key alone, and only at their checks.

        k raises AbortSignalError ──▶ k's place goes to the next ──▶ EXISTS abort
                                                                     │ set        │ expired
        a sibling in flight ──▶ goes on to its own end               ▼            ▼
                                                             skipped_aborted    agent run

    The exact condition: no sibling is in flight when one raises it, and the key is there at every
    check after. -/

namespace LunaCore.Flow.ScratchpadIterations
open LunaCore.Values LunaCore.Schemes

variable {setup : Setup} {s t : State} {b : Action}

/-- An iteration has raised `AbortSignalError`. -/
def Aborted (s : State) : Prop :=
  ∃ (k : ℕ) (it : Iteration), s.iterations[k]? = some it ∧ it.pc = .ended (.raised .abort)

/-- Once one has, no iteration starts its agent run. -/
def StartsNone (s : State) (_ : Action) (t : State) : Prop :=
  Aborted s → ∀ (k : ℕ) (it it' : Iteration), s.iterations[k]? = some it →
    t.iterations[k]? = some it' → it'.pc = .running → it.pc = .running

/-- Who was in flight when another raised it was cancelled. -/
def CancelsCaught (t : State) : Prop :=
  ∀ k ∈ t.caught, ∀ it : Iteration, t.iterations[k]? = some it → it.cancel ≠ .never

/-- The law of a run: at every step, and by the time the node raises. -/
structure Stopped (setup : Setup) (s : State) (as : List Action) : Prop where
  starts : EveryStep (step setup) StartsNone s as
  cancels : ∀ t e, runFrom (step setup) s as = some t → t.phase = .raised e → CancelsCaught t

/-- No sibling is in flight where an iteration ends with `AbortSignalError`. -/
def Alone (s : State) : Action → Prop
  | .advance k r => ∀ it : Iteration, s.iterations[k]? = some it →
    (advance s.key it.pc it.account r).map Prod.fst = some (.ended (.raised .abort)) →
      s.inFlightBeside k = []
  | _ => True

/-- A check after one has sees the key. -/
def SeesKey (s : State) : Action → Prop
  | .advance k .done => ∀ it : Iteration, s.iterations[k]? = some it → it.pc = .checking →
    Aborted s → s.key = true
  | _ => True

def InTime (s : State) (b : Action) : Prop := Alone s b ∧ SeesKey s b

instance (s : State) : Decidable (Aborted s) :=
  decidable_of_iff (∃ it ∈ s.iterations, it.pc = .ended (.raised .abort))
    ⟨fun ⟨it, hit, habort⟩ => (List.mem_iff_getElem?.mp hit).imp fun _ hk => ⟨it, hk, habort⟩,
      fun ⟨_, it, hit, habort⟩ => ⟨it, List.mem_of_getElem? hit, habort⟩⟩

instance (s : State) : ∀ b : Action, Decidable (Alone s b)
  | .advance k r => decidable_of_iff (∀ it ∈ s.iterations[k]?,
      (advance s.key it.pc it.account r).map Prod.fst = some (.ended (.raised .abort)) →
        s.inFlightBeside k = []) Iff.rfl
  | .setKey | .dropKey | .begin _ | .gather | .drained => isTrue trivial

instance (s : State) : ∀ b : Action, Decidable (SeesKey s b)
  | .advance k .done => decidable_of_iff (∀ it ∈ s.iterations[k]?, it.pc = .checking →
      Aborted s → s.key = true) Iff.rfl
  | .advance _ .missing | .advance _ (.raises _ _) | .setKey | .dropKey | .begin _ | .gather
  | .drained => isTrue trivial

instance (s : State) (b : Action) : Decidable (InTime s b) :=
  inferInstanceAs (Decidable (Alone s b ∧ SeesKey s b))

/-- Once one has raised it, nobody is in flight. -/
def Calm (s : State) : Prop :=
  Aborted s → ∀ (k : ℕ) (it : Iteration), s.iterations[k]? = some it → it.inFlight = false

theorem inFlight_eq_false_iff {it : Iteration} : it.inFlight = false ↔
    it.pc = .waiting ∨ it.pc = .checking ∨ ∃ r, it.pc = .ended r := by
  rw [← ended_iff]
  simp only [Iteration.inFlight, Iteration.active, decide_eq_false_iff_not, decide_eq_true_eq]
  tauto

theorem not_inFlight_beside {k j : ℕ} {it : Iteration} (h : s.inFlightBeside k = [])
    (hj : j ≠ k) (hit : s.iterations[j]? = some it) : it.inFlight = false := by
  rw [State.inFlightBeside, List.filter_eq_nil_iff] at h
  have hnone := h j (List.mem_range.mpr (List.getElem?_eq_some_iff.mp hit).1)
  simpa [hj, hit] using hnone

/-- What is not in flight and has the key before it ends at its next await. -/
theorem ends_of_idle {key : Bool} {it : Iteration} {r : Reply} {pc' : Pc} {a' : Account}
    (hidle : it.inFlight = false) (hkey : it.pc = .checking → r = .done → key = true)
    (h : advance key it.pc it.account r = some (pc', a')) : ∃ result, pc' = .ended result := by
  rcases inFlight_eq_false_iff.mp hidle with hpc | hpc | ⟨result, hpc⟩
  · rw [hpc] at h
    cases r with
    | done | missing => cases h
    | raises e landed =>
      cases h
      exact ⟨_, rfl⟩
  · rw [hpc] at h
    cases r with
    | done =>
      rw [hkey hpc rfl] at h
      cases h
      exact ⟨_, rfl⟩
    | missing => cases h
    | raises e landed =>
      cases h
      exact ⟨_, rfl⟩
  · rw [hpc] at h
    cases r <;> cases h

theorem aborted_of_drain {e : Exc} (h : Aborted (s.drain e)) : Aborted s := by
  obtain ⟨k, it', hit', habort⟩ := h
  rw [State.drain, List.getElem?_map] at hit'
  obtain ⟨it, hit, rfl⟩ := Option.map_eq_some_iff.mp hit'
  exact ⟨k, it, hit, habort⟩

theorem calm_step (hs : Calm s) (hok : InTime s b) (h : step setup s b = some t) : Calm t := by
  rcases step_cases h with ⟨_, rfl⟩ | ⟨k, it, rfl, hit, hpc, rfl⟩ |
    ⟨k, r, it, it', rfl, hit, hresume, rfl⟩ | ⟨-, -, hgather⟩ | ⟨-, _, -, rfl⟩
  · exact hs
  · intro haborted
    refine forall_moved (p := fun _ (it : Iteration) => it.inFlight = false)
      (hs (exists_of_moved (by simp) haborted)) ?_
    exact inFlight_eq_false_iff.mpr (.inr (.inl rfl))
  · intro haborted
    have hadvance := resume_advance hresume
    by_cases habort : it'.pc = .ended (.raised .abort)
    · -- it is the one that raises: nobody is in flight beside it
      intro j next hnext
      rcases moved_cases hnext with ⟨rfl, rfl⟩ | ⟨hne, hold⟩
      · exact inFlight_eq_false_iff.mpr (.inr (.inr ⟨_, habort⟩))
      · have hnone := hok.1 it hit (by rw [hadvance, Option.map_some, habort])
        exact not_inFlight_beside hnone hne.symm hold
    · -- one had before: this one was not in flight, so it ends
      have hidle := hs (exists_of_moved habort haborted)
      refine forall_moved (p := fun _ (it : Iteration) => it.inFlight = false) hidle ?_
      have hkey : it.pc = .checking → r = .done → s.key = true := by
        rintro hpc rfl
        exact hok.2 it hit hpc (exists_of_moved habort haborted)
      exact inFlight_eq_false_iff.mpr (.inr (.inr (ends_of_idle (hidle k it hit) hkey hadvance)))
  · rcases gathered_cases hgather with ⟨_, rfl⟩ | ⟨_, rfl⟩ | ⟨-, rfl⟩
    · exact hs
    · intro haborted k it' hit'
      have hidle := hs (aborted_of_drain haborted)
      rw [State.drain, List.getElem?_map] at hit'
      obtain ⟨it, hit, rfl⟩ := Option.map_eq_some_iff.mp hit'
      exact hidle k it hit
    · exact hs
  · exact hs

/-- The emit of `started` is all that leads to an agent run. -/
theorem starting_of_running {key : Bool} {pc : Pc} {a a' : Account} {r : Reply}
    (h : advance key pc a r = some (.running, a')) : pc = .starting := by
  cases pc <;> cases r <;> try cases h
  · cases key <;> cases h
  · rfl

theorem startsNone_step (hs : Calm s) (h : step setup s b = some t) : StartsNone s b t := by
  intro haborted k it it' hit hit' hrunning
  obtain ⟨was, hwas, hmove⟩ := step_at h hit'
  obtain rfl := Option.some.inj (hit.symm.trans hwas)
  rw [hrunning] at hmove
  rcases hmove with ⟨hpc, -⟩ | ⟨-, hpc, -⟩ | ⟨r, -, hadvance⟩
  · exact hpc.symm
  · cases hpc
  · have hidle := inFlight_eq_false_iff.mp (hs haborted k it hit)
    rw [starting_of_running hadvance] at hidle
    simp at hidle

/-! ### Who is caught -/

/-- Someone is caught by a step that ends an iteration with `AbortSignalError` only. -/
theorem caught_step (h : step setup s b = some t) : t.caught = s.caught ∨
    ∃ k r it, b = .advance k r ∧ s.iterations[k]? = some it ∧
      (advance s.key it.pc it.account r).map Prod.fst = some (.ended (.raised .abort)) ∧
      t.caught = s.caught ++ s.inFlightBeside k := by
  rcases step_cases h with ⟨_, rfl⟩ | ⟨k, it, rfl, hit, hpc, rfl⟩ |
    ⟨k, r, it, it', rfl, hit, hresume, rfl⟩ | ⟨-, -, hgather⟩ | ⟨-, _, -, rfl⟩
  · exact .inl rfl
  · exact .inl rfl
  · by_cases habort : it'.pc = .ended (.raised .abort)
    · refine .inr ⟨k, r, it, rfl, hit, ?_, if_pos habort⟩
      rw [resume_advance hresume, Option.map_some, habort]
    · exact .inl (if_neg habort)
  · rcases gathered_cases hgather with ⟨_, rfl⟩ | ⟨_, rfl⟩ | ⟨-, rfl⟩
    · exact .inl rfl
    · exact .inl rfl
    · exact .inl rfl
  · exact .inl rfl

theorem caught_of_alone (hs : s.caught = []) (hok : Alone s b) (h : step setup s b = some t) :
    t.caught = [] := by
  rcases caught_step h with hsame | ⟨k, r, it, rfl, hit, habort, hmore⟩
  · rw [hsame, hs]
  · rw [hmore, hs, hok it hit habort, List.append_nil]

theorem caught_of_not_alone (hok : ¬ Alone s b) (h : step setup s b = some t) : t.caught ≠ [] := by
  cases b with
  | advance k r =>
    obtain ⟨it, hit, hnext⟩ := Option.bind_eq_some_iff.mp h
    obtain ⟨it', hresume, rfl⟩ := Option.map_eq_some_iff.mp hnext
    intro hnone
    refine hok fun other hother habort => ?_
    obtain rfl := Option.some.inj (hit.symm.trans hother)
    rw [resume_advance hresume, Option.map_some, Option.some.injEq] at habort
    rw [State.put, if_pos habort] at hnone
    exact (List.append_eq_nil_iff.mp hnone).2
  | _ => exact absurd trivial hok

theorem caught_stays (hs : s.caught ≠ []) (h : step setup s b = some t) : t.caught ≠ [] := by
  rcases caught_step h with hsame | ⟨k, r, it, -, -, -, hmore⟩
  · rwa [hsame]
  · rw [hmore]
    exact fun hnone => hs (List.append_eq_nil_iff.mp hnone).1

/-- Nobody was cancelled, and who was caught is one of them. -/
structure Uncancelled (s : State) : Prop where
  never : ∀ (k : ℕ) (it : Iteration), s.iterations[k]? = some it → it.cancel = .never
  among : ∀ k ∈ s.caught, k < s.iterations.length

/-- In `continue` mode nobody ever is: when `gather` has returned, all are done. -/
theorem uncancelled_step {concurrency : ℕ} (hmode : setup.execution = .parallel .goOn concurrency)
    (hs : Uncancelled s) (h : step setup s b = some t) : Uncancelled t := by
  constructor
  · rcases step_cases h with ⟨_, rfl⟩ | ⟨k, it, rfl, hit, hpc, rfl⟩ |
      ⟨k, r, it, it', rfl, hit, hresume, rfl⟩ | ⟨-, -, hgather⟩ | ⟨-, _, -, rfl⟩
    · exact hs.never
    · exact forall_moved (p := fun _ (it : Iteration) => it.cancel = .never) hs.never
        (hs.never k it hit)
    · refine forall_moved (p := fun _ (it : Iteration) => it.cancel = .never) hs.never ?_
      have hnever := hs.never k it hit
      unfold Iteration.resume at hresume
      rw [if_neg (by simp [hnever])] at hresume
      split_ifs at hresume
      obtain ⟨next, -, rfl⟩ := Option.map_eq_some_iff.mp hresume
      exact hnever
    · rw [gathered, hmode] at hgather
      simp only at hgather
      split_ifs at hgather with hall
      · cases hgather
        intro k it' hit'
        rw [State.drain, List.getElem?_map] at hit'
        obtain ⟨it, hit, rfl⟩ := Option.map_eq_some_iff.mp hit'
        rw [Iteration.cancelled, if_pos (List.all_eq_true.mp hall it (List.mem_of_getElem? hit))]
        exact hs.never k it hit
      · cases hgather
        exact hs.never
    · exact hs.never
  · rw [length_step h]
    rcases caught_step h with hsame | ⟨k, r, it, -, -, -, hmore⟩
    · rw [hsame]
      exact hs.among
    · rw [hmore]
      intro j hj
      rcases List.mem_append.mp hj with hold | hnew
      · exact hs.among j hold
      · exact List.mem_range.mp (List.mem_filter.mp hnew).1

theorem cancelsCaught_iff (hs : Uncancelled s) : CancelsCaught s ↔ s.caught = [] := by
  constructor
  · intro hcancels
    refine List.eq_nil_iff_forall_not_mem.mpr fun k hk => ?_
    have hit := List.getElem?_eq_getElem (hs.among k hk)
    exact hcancels k hk _ hit (hs.never k _ hit)
  · intro hnone k hk
    rw [hnone] at hk
    cases hk

/-! ### What a run does -/

/-- CODE BUG (condition on runs): where nobody is in flight when one raises `AbortSignalError` and
    the key is there at every check after, no agent run starts and there is nobody to cancel. In
    `continue` mode the first is needed: whoever is in flight then is not cancelled. -/
theorem stopped_of_inTime (ceiling : ℕ) (node : FlowNode) (cfg : Dict) (snapshot : List String)
    (as : List Action) (hstart : iterateWithScratchpad ceiling node cfg snapshot = .ok (setup, s)) :
    (Guarded (step setup) InTime s as → Stopped setup s as) ∧
    ∀ concurrency, setup.execution = .parallel .goOn concurrency →
      ∀ t, runFrom (step setup) s as = some t →
        (CancelsCaught t ↔ Guarded (step setup) Alone s as) := by
  obtain ⟨boundedIds, -, hs⟩ := start_fresh hstart
  have hfresh (k : ℕ) (it : Iteration) (hit : s.iterations[k]? = some it) :
      it.pc = .waiting ∧ it.cancel = .never := by
    rw [hs, List.getElem?_map] at hit
    obtain ⟨recordId, -, rfl⟩ := Option.map_eq_some_iff.mp hit
    exact ⟨rfl, rfl⟩
  have hnobody : s.caught = [] := by rw [hs]
  constructor
  · intro hguarded
    have hcalm : Calm s := by
      rintro ⟨k, it, hit, habort⟩
      rw [(hfresh k it hit).1] at habort
      cases habort
    constructor
    · exact everyStep_of_guarded (fun _ _ _ hs hok h => calm_step hs hok h)
        (fun _ _ _ hs _ h => startsNone_step hs h) hcalm hguarded
    · intro t e hrun _ k hk
      have hstep (u : State) (b : Action) (v : State) (hu : u.caught = []) (hok : InTime u b)
          (h : step setup u b = some v) : v.caught = [] := caught_of_alone hu hok.1 h
      have hnone := inv_guarded hstep hnobody hguarded hrun
      rw [hnone] at hk
      cases hk
  · intro concurrency hmode t hrun
    have hnever : Uncancelled s :=
      ⟨fun k it hit => (hfresh k it hit).2, fun k hk => by rw [hnobody] at hk; cases hk⟩
    rw [cancelsCaught_iff (inv_run (fun _ _ _ hs h => uncancelled_step hmode hs h) hnever hrun)]
    rcases inv_or_spoilt (fun _ _ _ hs hok h => caught_of_alone hs hok h)
      (fun _ _ _ _ hok h => caught_of_not_alone hok h) (fun _ _ _ hs h => caught_stays hs h)
      hnobody hrun with ⟨hguarded, hnone⟩ | ⟨hguarded, hsome⟩
    · exact iff_of_true hnone hguarded
    · exact iff_of_false hsome hguarded

/-- Three jobs, two at a time. -/
def scoreThree : Setup where
  node := scoreJobs.node
  execution := .parallel .goOn 2
  collection := "pending"
  maxIterations := 50
  snapshotSize := 3

def twoAtATime : Dict := scoreCfg ++ [("concurrency", .num 2)]

def threeFound : State where
  key := false
  iterations := [.fresh "job-a", .fresh "job-b", .fresh "job-c"]
  first := none
  phase := .iterating
  caught := []

/-- A job gets to its agent run. -/
def starts (k : ℕ) : List Action := .begin k :: List.replicate 3 (.advance k .done)

/-- Its agent run sees the abort key and raises. -/
def raisesAbort (k : ℕ) : List Action :=
  [.advance k (.raises .abort false), .advance k .done, .advance k .done]

/-- The abort key expires when the first job has raised and the third has yet to be taken: the third
    starts its agent run, and the second, which was in its own, is not cancelled. -/
theorem key_expired_next_starts :
    iterateWithScratchpad 4 scoreThree.node twoAtATime ["job-b", "job-c", "job-a"] =
      .ok (scoreThree, threeFound) ∧
    ∃ s t, runFrom (step scoreThree) threeFound (starts 0 ++ starts 1 ++ [.setKey] ++
        raisesAbort 0 ++ [.dropKey, .begin 2, .advance 2 .done, .advance 2 .done]) = some s ∧
      step scoreThree s (.advance 2 .done) = some t ∧
      ¬ StartsNone s (.advance 2 .done) t ∧ ¬ CancelsCaught t := by
  refine ⟨rfl, _, _, rfl, rfl, fun hnone => ?_, fun hcancels => ?_⟩
  · have hrunning := hnone ⟨0, _, rfl, rfl⟩ 2 _ _ rfl rfl rfl
    cases hrunning
  · exact hcancels 1 (by decide +kernel) _ rfl rfl

/-- One job at a time, and the key is still there: the next is skipped. -/
theorem next_skipped :
    Stopped scoreThree threeFound
      (starts 0 ++ [.setKey] ++ raisesAbort 0 ++ [.begin 1, .advance 1 .done]) :=
  (stopped_of_inTime 4 scoreThree.node twoAtATime ["job-b", "job-c", "job-a"] _ rfl).1
    (by decide +kernel)

end LunaCore.Flow.ScratchpadIterations
