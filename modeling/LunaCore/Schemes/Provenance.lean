import LunaCore.Schemes.Machine

/-! What stands in a log that a machine only appends to: just what its steps made.

    A step makes at most one entry. The i-th entry of the log after a run is what the run's step
    made that was taken when the log held i entries. -/

namespace LunaCore.Schemes

variable {σ α κ : Type*} {step : σ → α → Option σ} {log : σ → List κ} {made : σ → α → Option κ}

section

variable (step log made)

/-- The i-th entry was made by a step of the run from `start`. -/
def Arisen (start : σ) (as : List α) (i : ℕ) (entry : κ) : Prop :=
  ∃ before a after mid, as = before ++ a :: after ∧ runFrom step start before = some mid ∧
    (log mid).length = i ∧ made mid a = some entry

end

/-- What stands in the log stays at its place. -/
theorem log_kept (hstep : ∀ s a t, step s a = some t → log t = log s ++ (made s a).toList)
    {as : List α} {s t : σ} {i : ℕ} {entry : κ} (hs : (log s)[i]? = some entry)
    (h : runFrom step s as = some t) : (log t)[i]? = some entry := by
  have hinv : ∀ s a t, (log s)[i]? = some entry → step s a = some t →
      (log t)[i]? = some entry := by
    intro s a t hs hnext
    rw [hstep s a t hnext, List.getElem?_append_left (List.getElem?_eq_some_iff.mp hs).1]
    exact hs
  exact inv_run hinv hs h

theorem Arisen.concat {start s : σ} {seen : List α} {a : α} {entry : κ}
    (hseen : runFrom step start seen = some s) (hmade : made s a = some entry) :
    Arisen step log made start (seen ++ [a]) (log s).length entry :=
  ⟨seen, a, [], s, rfl, hseen, rfl, hmade⟩

theorem Arisen.later {start : σ} {seen : List α} {i : ℕ} {entry : κ}
    (h : Arisen step log made start seen i entry) (a : α) :
    Arisen step log made start (seen ++ [a]) i entry := by
  obtain ⟨before, made, after, mid, rfl, hrun, hlength, hmade⟩ := h
  exact ⟨before, made, after ++ [a], mid, by simp, hrun, hlength, hmade⟩

/-- PROVENANCE RULE: an entry stands at a place of the log just when a step of the run made it
    there. -/
theorem getElem?_log_iff
    (hstep : ∀ s a t, step s a = some t → log t = log s ++ (made s a).toList) {start t : σ}
    (hstart : log start = []) {as : List α} (h : runFrom step start as = some t) {i : ℕ}
    {entry : κ} : (log t)[i]? = some entry ↔ Arisen step log made start as i entry := by
  constructor
  · intro hentry
    have hinv : ∀ seen s a t, (runFrom step start seen = some s ∧ ∀ i entry,
        (log s)[i]? = some entry → Arisen step log made start seen i entry) →
        step s a = some t → (runFrom step start (seen ++ [a]) = some t ∧ ∀ i entry,
          (log t)[i]? = some entry → Arisen step log made start (seen ++ [a]) i entry) := by
      intro seen s a t ⟨hseen, hs⟩ hnext
      refine ⟨by rw [runFrom_append, hseen]; simp [hnext], fun i entry hentry => ?_⟩
      rw [hstep s a t hnext] at hentry
      rcases Nat.lt_or_ge i (log s).length with hold | hnew
      · rw [List.getElem?_append_left hold] at hentry
        exact (hs i entry hentry).later a
      · rw [List.getElem?_append_right hnew] at hentry
        cases hmade : made s a with
        | none => simp [hmade] at hentry
        | some e =>
          obtain ⟨hzero, rfl⟩ : i - (log s).length = 0 ∧ e = entry := by
            simpa [hmade, List.getElem?_singleton] using hentry
          obtain rfl : i = (log s).length := by omega
          exact .concat hseen hmade
    have hnone : runFrom step start [] = some start ∧ ∀ i entry, (log start)[i]? = some entry →
        Arisen step log made start [] i entry := ⟨rfl, by simp [hstart]⟩
    exact (history_run hinv hnone h).2 i entry hentry
  · rintro ⟨before, a, after, mid, rfl, hbefore, rfl, hmade⟩
    rw [runFrom_append, hbefore, Option.bind_some] at h
    obtain ⟨next, hnext, hafter⟩ := runFrom_cons_some h
    refine log_kept hstep ?_ hafter
    rw [hstep mid a next hnext, hmade]
    simp

end LunaCore.Schemes
