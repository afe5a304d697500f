import Mathlib.Data.List.Range

/-! A loop over a list whose body can leave it: Python's `for … else`.

    for item in items:         body s item = next s'    go on with s'
        …                      body s item = leave r    the loop's result is r
    else:
        …                      orElse s                 every item was gone through

    The rule is about what has been gone through: an invariant of the items seen and the state
    they led to, which each exit turns into the postcondition. -/

namespace LunaCore.Schemes

/-- What one pass through a loop's body does. -/
inductive Pass (σ ρ : Type*) where
  | next (s : σ)
  | leave (r : ρ)

variable {ι σ ρ : Type*} (body : σ → ι → Pass σ ρ) (orElse : σ → ρ)

/-- The loop. -/
def forEach : List ι → σ → ρ
  | [], s => orElse s
  | item :: rest, s => match body s item with
    | .next s' => forEach rest s'
    | .leave r => r

variable {body orElse}

/-- LOOP RULE: what each pass preserves and each exit turns into `Post`, the loop ends with. -/
theorem forEach_rule {Inv : List ι → σ → Prop} {Post : ρ → Prop} {items : List ι} {s : σ}
    (h : Inv [] s)
    (hnext : ∀ seen item rest s s', seen ++ item :: rest = items → Inv seen s →
      body s item = .next s' → Inv (seen ++ [item]) s')
    (hleave : ∀ seen item rest s r, seen ++ item :: rest = items → Inv seen s →
      body s item = .leave r → Post r)
    (hend : ∀ s, Inv items s → Post (orElse s)) : Post (forEach body orElse items s) := by
  suffices H : ∀ rest seen s, seen ++ rest = items → Inv seen s →
      Post (forEach body orElse rest s) from H items [] s rfl h
  intro rest
  induction rest with
  | nil =>
    intro seen s hitems hs
    rw [List.append_nil] at hitems
    exact hend s (hitems ▸ hs)
  | cons item rest ih =>
    intro seen s hitems hs
    rw [forEach]
    cases hbody : body s item with
    | leave r => exact hleave seen item rest s r hitems hs hbody
    | next s' =>
      refine ih (seen ++ [item]) s' ?_ (hnext seen item rest s s' hitems hs hbody)
      rw [List.append_assoc]
      exact hitems

/-- Over a range, what has been seen is how many. -/
theorem forRange_rule {body : σ → ℕ → Pass σ ρ} {Inv : ℕ → σ → Prop} {Post : ρ → Prop} {n : ℕ}
    {s : σ} (h : Inv 0 s)
    (hnext : ∀ i s s', i < n → Inv i s → body s i = .next s' → Inv (i + 1) s')
    (hleave : ∀ i s r, i < n → Inv i s → body s i = .leave r → Post r)
    (hend : ∀ s, Inv n s → Post (orElse s)) : Post (forEach body orElse (List.range n) s) := by
  -- the prefixes of a range are the ranges
  have hseen : ∀ {seen rest : List ℕ} {i : ℕ}, seen ++ i :: rest = List.range n →
      seen.length = i ∧ i < n := by
    intro seen rest i hitems
    have hlt : seen.length < (List.range n).length := by rw [← hitems]; simp
    have hi : (seen ++ i :: rest)[seen.length]? = some i := by simp
    rw [hitems, List.getElem?_range (by simpa using hlt)] at hi
    have heq : seen.length = i := by simpa using hi
    rw [List.length_range] at hlt
    exact ⟨heq, heq ▸ hlt⟩
  let Seen : List ℕ → σ → Prop := fun seen s => Inv seen.length s
  have hstart : Seen [] s := h
  refine forEach_rule hstart ?_ ?_ ?_
  · intro seen i rest s s' hitems hs hbody
    obtain ⟨hlen, hlt⟩ := hseen hitems
    show Inv (seen ++ [i]).length s'
    rw [List.length_append, List.length_singleton]
    exact hnext _ s s' (by omega) hs (hlen ▸ hbody)
  · intro seen i rest s r hitems hs hbody
    obtain ⟨hlen, hlt⟩ := hseen hitems
    exact hleave _ s r (by omega) hs (hlen ▸ hbody)
  · intro s hs
    exact hend s (by simpa [Seen] using hs)

end LunaCore.Schemes
