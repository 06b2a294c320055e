import Mathlib.Logic.Function.Iterate

/-!
# One deterministic machine beside another

`step` and `step'` are the step functions of two machines, `R` relates their states. As long as the
first machine is in a state where each of its steps is answered by some steps of the second, a whole
run is answered (`Simulates.run`).
-/

namespace Lockstep

variable {σ τ : Type} {step : σ → σ} {step' : τ → τ} {R : σ → τ → Prop} {inside : σ → Prop}

/-- Every step from a state inside is answered by some steps of the other machine. -/
def Simulates (step : σ → σ) (step' : τ → τ) (R : σ → τ → Prop) (inside : σ → Prop) : Prop :=
  ∀ s t, R s t → inside s → ∃ k, R (step s) (step'^[k] t)

/-- A run that stays inside up to its last step is answered. -/
theorem Simulates.run (h : Simulates step step' R inside) {s : σ} {t : τ} (hR : R s t) {n : Nat}
    (hin : ∀ i < n, inside (step^[i] s)) : ∃ k, R (step^[n] s) (step'^[k] t) := by
  induction n with
  | zero => exact ⟨0, hR⟩
  | succ n ih =>
    obtain ⟨k, hk⟩ := ih fun i hi => hin i (Nat.lt_succ_of_lt hi)
    obtain ⟨j, hj⟩ := h _ _ hk (hin n (Nat.lt_succ_self n))
    refine ⟨j + k, ?_⟩
    rw [Function.iterate_succ_apply', Function.iterate_add_apply]
    exact hj

end Lockstep
