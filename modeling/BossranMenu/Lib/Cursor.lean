import Mathlib.Tactic.Common

/-!
# Readers of a stream

A reader walks a stream of cells with a cursor. Every reader carries two facts: the cursor does not
go back, and the outcome depends only on the cells that the cursor went over. `pure`, `next` and
`bind` have both, and so has every reader that is written with `do`.

* `run_congr`: what was not consumed does not count.
* `Within n r`: the reader `r` consumes at most `n` cells.
* `Yields P r`: every result of the reader `r` has `P`.
-/

namespace Cursor

/-- A reader of a stream of `β` with a result in `α`; `run s i` starts at the cell `i`. -/
structure Reader (β α : Type) where
  run : (Nat → β) → Nat → α × Nat
  mono : ∀ s i, i ≤ (run s i).2
  consumed : ∀ s s' i, (∀ j, i ≤ j → j < (run s i).2 → s' j = s j) → run s' i = run s i

variable {β α γ : Type}

namespace Reader

/-- Reads nothing. -/
protected def pure (a : α) : Reader β α where
  run _ i := (a, i)
  mono _ _ := Nat.le_refl _
  consumed _ _ _ _ := rfl

/-- Reads one cell. -/
def next : Reader β β where
  run s i := (s i, i + 1)
  mono _ i := Nat.le_succ i
  consumed s s' i h := by
    have hcell : s' i = s i := h i (Nat.le_refl i) (Nat.lt_succ_self i)
    simp only [hcell]

/-- One reader behind the other. -/
protected def bind (r : Reader β α) (f : α → Reader β γ) : Reader β γ where
  run s i := (f (r.run s i).1).run s (r.run s i).2
  mono s i := Nat.le_trans (r.mono s i) ((f _).mono s _)
  consumed s s' i h := by
    have hr : r.run s' i = r.run s i := by
      apply r.consumed
      intro j hij hj
      exact h j hij (Nat.lt_of_lt_of_le hj ((f _).mono s _))
    rw [hr]
    apply (f _).consumed
    intro j hij hj
    exact h j (Nat.le_trans (r.mono s i) hij) hj

instance : Monad (Reader β) where
  pure := Reader.pure
  bind := Reader.bind

@[simp] theorem run_pure (a : α) (s : Nat → β) (i : Nat) :
    (pure a : Reader β α).run s i = (a, i) := rfl

@[simp] theorem run_next (s : Nat → β) (i : Nat) : (next : Reader β β).run s i = (s i, i + 1) := rfl

@[simp] theorem run_bind (r : Reader β α) (f : α → Reader β γ) (s : Nat → β) (i : Nat) :
    (r >>= f).run s i = (f (r.run s i).1).run s (r.run s i).2 := rfl

@[simp] theorem run_ite (c : Prop) [Decidable c] (r r' : Reader β α) (s : Nat → β) (i : Nat) :
    (if c then r else r').run s i = if c then r.run s i else r'.run s i := by
  split <;> rfl

theorem run_congr (r : Reader β α) {s s' : Nat → β} {i : Nat}
    (h : ∀ j, i ≤ j → j < (r.run s i).2 → s' j = s j) : r.run s' i = r.run s i :=
  r.consumed s s' i h

/-! ## How far a reader goes -/

/-- The reader consumes at most `n` cells. -/
def Within (n : Nat) (r : Reader β α) : Prop := ∀ s i, (r.run s i).2 ≤ i + n

theorem Within.le {n k : Nat} {r : Reader β α} (h : r.Within n) (hnk : n ≤ k) : r.Within k :=
  fun s i => Nat.le_trans (h s i) (Nat.add_le_add_left hnk i)

theorem within_pure (a : α) : (pure a : Reader β α).Within 0 := fun _ i => Nat.le_refl i

theorem within_next : (next : Reader β β).Within 1 := fun _ i => Nat.le_refl (i + 1)

theorem Within.bind {n k : Nat} {r : Reader β α} {f : α → Reader β γ} (hr : r.Within n)
    (hf : ∀ a, (f a).Within k) : (r >>= f).Within (n + k) := by
  intro s i
  have h := hf (r.run s i).1 s (r.run s i).2
  have h' := hr s i
  rw [run_bind]
  omega

theorem Within.ite {n : Nat} {c : Prop} [Decidable c] {r r' : Reader β α} (hr : r.Within n)
    (hr' : r'.Within n) : (if c then r else r').Within n := by
  split
  · exact hr
  · exact hr'

/-! ## What a reader yields -/

/-- Every result has `P`. -/
def Yields (P : α → Prop) (r : Reader β α) : Prop := ∀ s i, P (r.run s i).1

theorem yields_pure {P : α → Prop} {a : α} (h : P a) : (pure a : Reader β α).Yields P :=
  fun _ _ => h

theorem Yields.bind {P : α → Prop} {Q : γ → Prop} {r : Reader β α} {f : α → Reader β γ}
    (hr : r.Yields P) (hf : ∀ a, P a → (f a).Yields Q) : (r >>= f).Yields Q :=
  fun s i => hf _ (hr s i) s _

/-- The result of the first reader does not matter. -/
theorem yields_bind {Q : γ → Prop} {r : Reader β α} {f : α → Reader β γ}
    (hf : ∀ a, (f a).Yields Q) : (r >>= f).Yields Q :=
  fun s _ => hf _ s _

theorem Yields.ite {P : α → Prop} {c : Prop} [Decidable c] {r r' : Reader β α} (hr : r.Yields P)
    (hr' : r'.Yields P) : (if c then r else r').Yields P := by
  split
  · exact hr
  · exact hr'

end Reader

end Cursor
