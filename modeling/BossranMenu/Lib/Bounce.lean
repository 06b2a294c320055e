import Mathlib.Algebra.Order.Group.Abs
import Mathlib.Order.Interval.Set.Defs

/-!
# A point that bounces between two ends

The point moves by its step and then turns round if it is at an end or beyond it, whichever way it
was going. So it may leave the interval, and at an end it may turn outwards.

* `Near.next`: if a position of the point or the one after it is in the interval, this stays so.
* `Near.bounds`: then the point is at most one step outside the interval.
-/

namespace Bounce

/-- A position on a line, and the step to the next position. -/
structure Point (α : Type) where
  pos : α
  step : α

variable {α : Type} [AddCommGroup α] [LinearOrder α]

/-- One move. -/
def Point.next (lo hi : α) (p : Point α) : Point α :=
  let pos := p.pos + p.step
  ⟨pos, if pos ≤ lo ∨ pos ≥ hi then -p.step else p.step⟩

/-- The point is in the interval, or its next move brings it there. -/
def Near (lo hi : α) (p : Point α) : Prop :=
  p.pos ∈ Set.Icc lo hi ∨ p.pos + p.step ∈ Set.Icc lo hi

variable {lo hi : α} {p : Point α}

theorem Near.next (h : Near lo hi p) : Near lo hi (p.next lo hi) := by
  rcases h with h | h
  · by_cases hturn : p.pos + p.step ≤ lo ∨ p.pos + p.step ≥ hi
    · -- it turns round, and goes back to where it was
      right
      simp only [Point.next, if_pos hturn, add_neg_cancel_right]
      exact h
    · left
      obtain ⟨hlo, hhi⟩ := not_or.mp hturn
      exact ⟨(not_le.mp hlo).le, (not_le.mp hhi).le⟩
  · left
    exact h

theorem Near.iterate (h : Near lo hi p) (n : Nat) : Near lo hi ((Point.next lo hi)^[n] p) := by
  induction n with
  | zero => exact h
  | succ n ih =>
    rw [Function.iterate_succ_apply']
    exact ih.next

theorem abs_step_next (lo hi : α) (p : Point α) : |(p.next lo hi).step| = |p.step| := by
  simp only [Point.next]
  split
  · exact abs_neg p.step
  · rfl

theorem abs_step_iterate (lo hi : α) (p : Point α) (n : Nat) :
    |((Point.next lo hi)^[n] p).step| = |p.step| := by
  induction n with
  | zero => rfl
  | succ n ih => rw [Function.iterate_succ_apply', abs_step_next, ih]

variable [IsOrderedAddMonoid α]

/-- The point is at most one step outside the interval. -/
theorem Near.bounds (h : Near lo hi p) : lo - |p.step| ≤ p.pos ∧ p.pos ≤ hi + |p.step| := by
  rcases h with ⟨hlo, hhi⟩ | ⟨hlo, hhi⟩
  · have h0 := abs_nonneg p.step
    exact ⟨(sub_le_self lo h0).trans hlo, hhi.trans (le_add_of_nonneg_right h0)⟩
  · constructor
    · have hle : lo ≤ p.pos + |p.step| := hlo.trans (add_le_add_right (le_abs_self _) _)
      exact sub_le_iff_le_add.mpr hle
    · calc p.pos ≤ hi - p.step := le_sub_iff_add_le.mpr hhi
        _ = hi + -p.step := sub_eq_add_neg _ _
        _ ≤ hi + |p.step| := add_le_add_right (neg_le_abs p.step) _

end Bounce
