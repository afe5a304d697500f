import Mathlib.Data.List.Basic
import Mathlib.Tactic.Common

/-! Runs of a partial step function: the shared scheme of every protocol in this development.

    A machine is a function `step : σ → α → Option σ`; an action that is not enabled gives `none`.
    Four notions are enough for all of the protocols here: running a list of actions (`runFrom`),
    a condition every step of a run meets in the state it is taken from (`Guarded`), a property
    every step of a run has (`EveryStep`), and the two induction rules that carry an invariant
    along a run, with and without such a condition. -/

namespace LunaCore.Schemes

variable {σ α : Type*} (step : σ → α → Option σ)

/-- Take the actions in order; `none` as soon as one of them is not enabled. -/
def runFrom : σ → List α → Option σ
  | s, [] => some s
  | s, a :: as => (step s a).bind fun t => runFrom t as

/-- Every step of the run is taken from a state where its action meets `ok`. -/
def Guarded (ok : σ → α → Prop) : σ → List α → Prop
  | _, [] => True
  | s, a :: as => ∀ t, step s a = some t → ok s a ∧ Guarded ok t as

/-- Every step `s ─a→ t` of the run has `P s a t`. -/
def EveryStep (P : σ → α → σ → Prop) : σ → List α → Prop
  | _, [] => True
  | s, a :: as => ∀ t, step s a = some t → P s a t ∧ EveryStep P t as

@[simp] theorem runFrom_nil (s : σ) : runFrom step s [] = some s := rfl

@[simp] theorem runFrom_cons (s : σ) (a : α) (as : List α) :
    runFrom step s (a :: as) = (step s a).bind fun t => runFrom step t as := rfl

theorem runFrom_append (as bs : List α) (s : σ) :
    runFrom step s (as ++ bs) = (runFrom step s as).bind fun t => runFrom step t bs := by
  induction as generalizing s with
  | nil => rfl
  | cons a as ih =>
    rw [List.cons_append, runFrom_cons, runFrom_cons]
    cases step s a with
    | none => rfl
    | some t => exact ih t

variable {step}

/-- A first step of a run that goes through, and the rest of the run from where it leads. -/
theorem runFrom_cons_some {s t : σ} {a : α} {as : List α}
    (h : runFrom step s (a :: as) = some t) :
    ∃ u, step s a = some u ∧ runFrom step u as = some t := by
  rw [runFrom_cons] at h
  exact Option.bind_eq_some_iff.mp h

/-- INVARIANT RULE: what every step preserves, every run preserves. -/
theorem inv_run {Inv : σ → Prop} (hstep : ∀ s a t, Inv s → step s a = some t → Inv t) :
    ∀ {as : List α} {s t : σ}, Inv s → runFrom step s as = some t → Inv t := by
  intro as
  induction as with
  | nil =>
    intro s t hs h
    rw [runFrom_nil] at h
    exact Option.some.inj h ▸ hs
  | cons a as ih =>
    intro s t hs h
    obtain ⟨u, hu, hrest⟩ := runFrom_cons_some h
    exact ih (hstep s a u hs hu) hrest

/-- HISTORY RULE: what every step preserves of the actions so far and the state they led to, every
    run has of its actions and its end. -/
theorem history_run {Inv : List α → σ → Prop}
    (hstep : ∀ seen s a t, Inv seen s → step s a = some t → Inv (seen ++ [a]) t) :
    ∀ {as seen : List α} {s t : σ}, Inv seen s → runFrom step s as = some t →
      Inv (seen ++ as) t := by
  intro as
  induction as with
  | nil =>
    intro seen s t hs h
    rw [runFrom_nil] at h
    rw [List.append_nil]
    exact Option.some.inj h ▸ hs
  | cons a as ih =>
    intro seen s t hs h
    obtain ⟨u, hu, hrest⟩ := runFrom_cons_some h
    have hlast := ih (hstep seen s a u hs hu) hrest
    rwa [List.append_assoc] at hlast

/-- VIEW RULE: where a step moves the view as a machine of its own, by its own events, or leaves it
    alone, a run moves it by its own events. -/
theorem view_run {ν β : Type*} {view : σ → ν} {own : α → Option β} {viewStep : ν → β → Option ν}
    (hown : ∀ s a t e, step s a = some t → own a = some e → viewStep (view s) e = some (view t))
    (hother : ∀ s a t, step s a = some t → own a = none → view t = view s) :
    ∀ {as : List α} {s t : σ}, runFrom step s as = some t →
      runFrom viewStep (view s) (as.filterMap own) = some (view t) := by
  intro as
  induction as with
  | nil =>
    intro s t h
    rw [runFrom_nil] at h
    rw [← Option.some.inj h]
    rfl
  | cons a as ih =>
    intro s t h
    obtain ⟨u, hu, hrest⟩ := runFrom_cons_some h
    cases ha : own a with
    | none =>
      rw [List.filterMap_cons_none ha, ← hother s a u hu ha]
      exact ih hrest
    | some e =>
      rw [List.filterMap_cons_some ha, runFrom_cons, hown s a u e hu ha, Option.bind_some]
      exact ih hrest

/-- A run meets a condition when its first step does and the rest does from where that leads. -/
theorem Guarded.cons {ok : σ → α → Prop} {s t : σ} {a : α} {as : List α} (h : step s a = some t)
    (hok : ok s a) (hrest : Guarded step ok t as) : Guarded step ok s (a :: as) := by
  intro u hu
  obtain rfl := Option.some.inj (h.symm.trans hu)
  exact ⟨hok, hrest⟩

/-- GUARDED INVARIANT RULE: what every step that meets the condition preserves, every run whose
    steps all meet it preserves. -/
theorem inv_guarded {Inv : σ → Prop} {ok : σ → α → Prop}
    (hstep : ∀ s a t, Inv s → ok s a → step s a = some t → Inv t) :
    ∀ {as : List α} {s t : σ}, Inv s → Guarded step ok s as → runFrom step s as = some t →
      Inv t := by
  intro as
  induction as with
  | nil =>
    intro s t hs _ h
    rw [runFrom_nil] at h
    exact Option.some.inj h ▸ hs
  | cons a as ih =>
    intro s t hs hg h
    obtain ⟨u, hu, hrest⟩ := runFrom_cons_some h
    obtain ⟨hok, hguarded⟩ := hg u hu
    exact ih (hstep s a u hs hok hu) hguarded hrest

/-- A step property that follows from an invariant of every step holds of every step of any run. -/
theorem everyStep_of_inv {Inv : σ → Prop} {P : σ → α → σ → Prop}
    (hstep : ∀ s a t, Inv s → step s a = some t → Inv t)
    (hP : ∀ s a t, Inv s → step s a = some t → P s a t) :
    ∀ {as : List α} {s : σ}, Inv s → EveryStep step P s as := by
  intro as
  induction as with
  | nil =>
    intro s _
    exact trivial
  | cons a as ih =>
    intro s hs t ht
    exact ⟨hP s a t hs ht, ih (hstep s a t hs ht)⟩

/-- A condition that can be checked at each step can be checked along a run. -/
instance Guarded.decidable {ok : σ → α → Prop} [∀ s a, Decidable (ok s a)] :
    ∀ (s : σ) (as : List α), Decidable (Guarded step ok s as)
  | _, [] => isTrue trivial
  | s, a :: as => match h : step s a with
    | none => isTrue fun t ht => by simp [h] at ht
    | some u =>
      have : Decidable (Guarded step ok u as) := Guarded.decidable u as
      decidable_of_iff (ok s a ∧ Guarded step ok u as)
        ⟨fun hu t ht => Option.some.inj (h.symm.trans ht) ▸ hu, fun ht => ht u h⟩

/-- A step property that can be checked at each step can be checked along a run. -/
instance EveryStep.decidable {P : σ → α → σ → Prop} [∀ s a t, Decidable (P s a t)] :
    ∀ (s : σ) (as : List α), Decidable (EveryStep step P s as)
  | _, [] => isTrue trivial
  | s, a :: as => match h : step s a with
    | none => isTrue fun t ht => by simp [h] at ht
    | some u =>
      have : Decidable (EveryStep step P u as) := EveryStep.decidable u as
      decidable_of_iff (P s a u ∧ EveryStep step P u as)
        ⟨fun hu t ht => Option.some.inj (h.symm.trans ht) ▸ hu, fun ht => ht u h⟩

/-- Two conditions met by a run are met together. -/
theorem Guarded.and {ok ok' : σ → α → Prop} : ∀ {as : List α} {s : σ},
    Guarded step ok s as → Guarded step ok' s as →
      Guarded step (fun s a => ok s a ∧ ok' s a) s as := by
  intro as
  induction as with
  | nil =>
    intro s _ _
    exact trivial
  | cons a as ih =>
    intro s h h' t ht
    obtain ⟨hok, hrest⟩ := h t ht
    obtain ⟨hok', hrest'⟩ := h' t ht
    exact ⟨⟨hok, hok'⟩, ih hrest hrest'⟩

/-- A step property that follows from an invariant holds of every step of a guarded run. -/
theorem everyStep_of_guarded {Inv : σ → Prop} {ok : σ → α → Prop} {P : σ → α → σ → Prop}
    (hstep : ∀ s a t, Inv s → ok s a → step s a = some t → Inv t)
    (hP : ∀ s a t, Inv s → ok s a → step s a = some t → P s a t) :
    ∀ {as : List α} {s : σ}, Inv s → Guarded step ok s as → EveryStep step P s as := by
  intro as
  induction as with
  | nil =>
    intro s _ _
    exact trivial
  | cons a as ih =>
    intro s hs hg t ht
    obtain ⟨hok, hrest⟩ := hg t ht
    exact ⟨hP s a t hs hok ht, ih (hstep s a t hs hok ht) hrest⟩

/-- EXACT CONDITION RULE: where a step has the property just when its action meets the condition,
    a run has it at every step just when all its steps meet the condition. -/
theorem everyStep_iff_guarded {Inv : σ → Prop} {ok : σ → α → Prop} {P : σ → α → σ → Prop}
    (hstep : ∀ s a t, Inv s → ok s a → step s a = some t → Inv t)
    (hP : ∀ s a t, Inv s → step s a = some t → (P s a t ↔ ok s a)) :
    ∀ {as : List α} {s : σ}, Inv s → (EveryStep step P s as ↔ Guarded step ok s as) := by
  intro as
  induction as with
  | nil =>
    intro s _
    exact Iff.rfl
  | cons a as ih =>
    intro s hs
    refine forall_congr' fun t => forall_congr' fun ht => ?_
    rw [hP s a t hs ht]
    exact and_congr_right fun hok => ih (hstep s a t hs hok ht)

/-- SPOILING RULE: where a step that meets the condition preserves the invariant and one that does
    not spoils the state for good, a run ends with the invariant or spoilt, as its steps all met the
    condition or not. -/
theorem inv_or_spoilt {Inv Spoilt : σ → Prop} {ok : σ → α → Prop}
    (hstep : ∀ s a t, Inv s → ok s a → step s a = some t → Inv t)
    (hspoil : ∀ s a t, Inv s → ¬ ok s a → step s a = some t → Spoilt t)
    (hstay : ∀ s a t, Spoilt s → step s a = some t → Spoilt t) :
    ∀ {as : List α} {s t : σ}, Inv s → runFrom step s as = some t →
      (Guarded step ok s as ∧ Inv t) ∨ (¬ Guarded step ok s as ∧ Spoilt t) := by
  intro as
  induction as with
  | nil =>
    intro s t hs h
    rw [runFrom_nil] at h
    exact .inl ⟨trivial, Option.some.inj h ▸ hs⟩
  | cons a as ih =>
    intro s t hs h
    obtain ⟨u, hu, hrest⟩ := runFrom_cons_some h
    by_cases hok : ok s a
    · rcases ih (hstep s a u hs hok hu) hrest with ⟨hguarded, ht⟩ | ⟨hguarded, ht⟩
      · refine .inl ⟨fun v hv => ?_, ht⟩
        obtain rfl := Option.some.inj (hu.symm.trans hv)
        exact ⟨hok, hguarded⟩
      · exact .inr ⟨fun hall => hguarded (hall u hu).2, ht⟩
    · exact .inr ⟨fun hall => hok (hall u hu).1,
        inv_run hstay (hspoil s a u hs hok hu) hrest⟩

/-- The property of one step, taken anywhere in a run that has it at every step. -/
theorem EveryStep.at {P : σ → α → σ → Prop} {b : α} {bs : List α} :
    ∀ {as : List α} {s u v : σ}, EveryStep step P s (as ++ b :: bs) →
      runFrom step s as = some u → step u b = some v → P u b v := by
  intro as
  induction as with
  | nil =>
    intro s u v h hu hv
    obtain rfl : s = u := Option.some.inj hu
    exact (h v hv).1
  | cons a as ih =>
    intro s u v h hu hv
    obtain ⟨w, hw, hrest⟩ := runFrom_cons_some hu
    exact ih (h w hw).2 hrest hv

end LunaCore.Schemes
