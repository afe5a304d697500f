import LunaCore.Schemes.Machine

/-! Machines whose every step takes a measure down.

    The measure bounds the runs: so many steps and the machine cannot go on. Where it waits for an
    environment, `choose s n` is the action that the environment's n-th answer makes of the state;
    a machine that can always take it, but where it has ended, ends whatever the answers are. -/

namespace LunaCore.Schemes

variable {σ α : Type*} {step : σ → α → Option σ} {μ : σ → ℕ}

/-- Every step takes the measure down. -/
def Decreasing (step : σ → α → Option σ) (μ : σ → ℕ) : Prop :=
  ∀ s a t, step s a = some t → μ t < μ s

/-- What the actions weigh together. -/
def weightOf (weight : α → ℕ) : List α → ℕ
  | [] => 0
  | a :: as => weight a + weightOf weight as

/-- What is weighed at each step adds up to no more than the measure it uses up. -/
theorem weightOf_add_le {weight : α → ℕ} (h : ∀ s a t, step s a = some t → μ t + weight a ≤ μ s) :
    ∀ {as : List α} {s t : σ}, runFrom step s as = some t → weightOf weight as + μ t ≤ μ s := by
  intro as
  induction as with
  | nil =>
    intro s t hrun
    rw [runFrom_nil] at hrun
    obtain rfl := Option.some.inj hrun
    simp [weightOf]
  | cons a as ih =>
    intro s t hrun
    obtain ⟨u, hu, hrest⟩ := runFrom_cons_some hrun
    have hstep := h s a u hu
    have hweight := ih hrest
    rw [weightOf]
    omega

/-- The actions of so many steps, from the environment's answer `n` on. -/
def played (step : σ → α → Option σ) (choose : σ → ℕ → α) : ℕ → σ → ℕ → List α
  | 0, _, _ => []
  | steps + 1, s, n => choose s n :: match step s (choose s n) with
    | some t => played step choose steps t (n + 1)
    | none => []

/-- TERMINATION RULE: a machine that goes on until it has ended, whatever it is answered, and whose
    steps take a measure down, ends. -/
theorem ends {Ended : σ → Prop} {choose : σ → ℕ → α} (h : Decreasing step μ)
    (hon : ∀ s n, ¬ Ended s → ∃ t, step s (choose s n) = some t) (s : σ) (n : ℕ) :
    ∃ steps ≤ μ s, ∃ t, runFrom step s (played step choose steps s n) = some t ∧ Ended t := by
  by_cases hs : Ended s
  · exact ⟨0, Nat.zero_le _, s, rfl, hs⟩
  · obtain ⟨t, ht⟩ := hon s n hs
    have hlt := h s _ t ht
    obtain ⟨steps, hsteps, u, hrun, hu⟩ := ends h hon t (n + 1)
    refine ⟨steps + 1, by omega, u, ?_, hu⟩
    rw [played, runFrom_cons, ht]
    exact hrun
termination_by μ s

end LunaCore.Schemes
