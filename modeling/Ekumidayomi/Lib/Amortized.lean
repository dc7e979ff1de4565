import Ekumidayomi.Lib.Run
import Mathlib.Algebra.GroupWithZero.Nat

/-!
# Costs along a run

Where every step pays for its cost out of a potential, and out of what it is granted, the costs of a
run are at most the potential that it starts with and the grants of its steps (`Run.amortized`).
-/

namespace Lts

variable {σ ℓ : Type*} {step : σ → ℓ → σ → Prop} {s s' : σ} {tr : List ℓ}

/-- If every step pays its cost out of a potential and what it is granted, so does a run. -/
theorem Run.amortized (pot : σ → Nat) (cost grant : ℓ → Nat) {I : σ → Prop} {P : ℓ → Prop}
    (hstep : ∀ {s l s'}, I s → P l → step s l s' → I s' ∧ pot s' + cost l ≤ pot s + grant l)
    (h : Run step s tr s') (h0 : I s) (hP : ∀ l ∈ tr, P l) :
    I s' ∧ pot s' + (tr.map cost).sum ≤ pot s + (tr.map grant).sum := by
  induction h with
  | nil => exact ⟨h0, Nat.le_refl _⟩
  | @snoc _ _ tr l _ hs ih =>
    obtain ⟨hI, hle⟩ := ih fun k hk => hP k (List.mem_append_left _ hk)
    have hl : P l := hP l (List.mem_append_right _ (List.mem_singleton_self l))
    obtain ⟨hI', hpaid⟩ := hstep hI hl hs
    refine ⟨hI', ?_⟩
    simp only [List.map_append, List.map_singleton, List.sum_append, List.sum_singleton]
    omega

end Lts
