import Mathlib.Logic.Function.Basic
import Mathlib.Tactic.Common

/-! A cache of what is built from rows, kept by the stamp each row bore.

        row read      stamp 7        cache: stamp 7 ─▶ what was built then
        row edited    stamp 9        cache: stamp 7   ─▶ built anew, and kept under 9

    Two readers may hold different versions of a row, and each puts back what it built. That costs a
    build and serves nobody a wrong one, as long as no two versions bear the same stamp. -/

namespace LunaCore.Schemes

variable {κ ρ σ β : Type*} (stamp : ρ → σ) (build : ρ → β)

/-- What is kept for each key. -/
abbrev StampedCache (κ σ β : Type*) := κ → Option (σ × β)

/-- What a reader of the row uses: what is kept, if it bears the row's stamp, or built anew. -/
def StampedCache.serve [DecidableEq κ] [DecidableEq σ] (cache : StampedCache κ σ β) (key : κ)
    (row : ρ) : β × StampedCache κ σ β :=
  match cache key with
  | some (kept, built) =>
    if kept = stamp row then (built, cache)
    else (build row, Function.update cache key (some (stamp row, build row)))
  | none => (build row, Function.update cache key (some (stamp row, build row)))

/-- Whatever is kept was built from a version of the row that bore its stamp. -/
def StampedCache.Coherent (versions : κ → List ρ) (cache : StampedCache κ σ β) : Prop :=
  ∀ key kept built, cache key = some (kept, built) →
    ∃ row ∈ versions key, stamp row = kept ∧ built = build row

/-- No two versions of a row bear the same stamp. -/
def StampedApart (versions : κ → List ρ) : Prop :=
  ∀ key, ∀ row ∈ versions key, ∀ other ∈ versions key, stamp row = stamp other → row = other

variable {stamp build} {versions : κ → List ρ} {cache : StampedCache κ σ β} {key : κ} {row : ρ}

theorem coherent_empty : StampedCache.Coherent stamp build versions fun _ => none := by
  simp [StampedCache.Coherent]

/-- More versions leave a cache coherent. -/
theorem StampedCache.Coherent.mono {more : κ → List ρ}
    (h : StampedCache.Coherent stamp build versions cache)
    (hmore : ∀ key, versions key ⊆ more key) : StampedCache.Coherent stamp build more cache := by
  intro key kept built hkept
  obtain ⟨row, hrow, hstamp, hbuilt⟩ := h key kept built hkept
  exact ⟨row, hmore key hrow, hstamp, hbuilt⟩

variable [DecidableEq κ]

theorem coherent_update (h : StampedCache.Coherent stamp build versions cache)
    (hrow : row ∈ versions key) : StampedCache.Coherent stamp build versions
      (Function.update cache key (some (stamp row, build row))) := by
  intro other kept built hkept
  by_cases hsame : other = key
  · subst hsame
    rw [Function.update_self, Option.some.injEq, Prod.mk.injEq] at hkept
    exact ⟨row, hrow, hkept.1, hkept.2.symm⟩
  · rw [Function.update_of_ne hsame] at hkept
    exact h other kept built hkept

variable [DecidableEq σ]

/-- SPEC: a reader of a version is served what is built from that version. -/
theorem serve_built (h : StampedCache.Coherent stamp build versions cache)
    (hapart : StampedApart stamp versions) (hrow : row ∈ versions key) :
    (cache.serve stamp build key row).1 = build row := by
  unfold StampedCache.serve
  split
  · next kept built hkept =>
    split
    · next hstamp =>
      obtain ⟨other, hother, hstamp', rfl⟩ := h key kept built hkept
      rw [hapart key other hother row hrow (hstamp'.trans hstamp)]
    · rfl
  · rfl

theorem coherent_serve (h : StampedCache.Coherent stamp build versions cache)
    (hrow : row ∈ versions key) :
    StampedCache.Coherent stamp build versions (cache.serve stamp build key row).2 := by
  unfold StampedCache.serve
  split
  · split
    · exact h
    · exact coherent_update h hrow
  · exact coherent_update h hrow

end LunaCore.Schemes
