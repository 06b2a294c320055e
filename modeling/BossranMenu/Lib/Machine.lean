import Mathlib.Data.Option.Basic
import Mathlib.Data.List.Basic

/-!
# Machines, their runs and their invariants

A machine has initial states and a partial step function: `step s a` is `none` where the action `a`
cannot be taken. What the environment chooses (an input, the outcome of a call) is part of the
action, so the trace of a run tells everything that happened.

* `RunWhere ok tr s`: the trace `tr` leads from an initial state to `s`, and `ok` holds of each
  step; `Run` allows every step.
* `RunWhere.invariant`: what holds initially and is kept by each allowed step holds after every run.
* `counting`: the machine with a counter of what its steps add; it has the same runs
  (`RunWhere.counting`, `RunWhere.of_counting`).
* `execWhere`: runs a list of actions; what it reaches is reached by a run (`execWhere_run`,
  `exists_run`).
-/

namespace Transition

structure Machine (σ α : Type) where
  init : σ → Prop
  step : σ → α → Option σ

namespace Machine

variable {σ α : Type} (M : Machine σ α)

/-- The trace `tr`, the oldest action first, leads from an initial state to `s`. -/
inductive RunWhere (ok : σ → α → Prop) : List α → σ → Prop
  | init {s : σ} : M.init s → RunWhere ok [] s
  | step {tr : List α} {s s' : σ} (a : α) :
    RunWhere ok tr s → ok s a → M.step s a = some s' → RunWhere ok (tr ++ [a]) s'

/-- A run without restrictions. -/
abbrev Run : List α → σ → Prop := M.RunWhere fun _ _ => True

variable {M} {ok : σ → α → Prop}

theorem RunWhere.run {tr : List α} {s : σ} (h : M.RunWhere ok tr s) : M.Run tr s := by
  induction h with
  | init hi => exact .init hi
  | step a _ _ hs ih => exact .step a ih trivial hs

/-- A run of one step. -/
theorem RunWhere.single {s s' : σ} {a : α} (hi : M.init s) (hok : ok s a)
    (hs : M.step s a = some s') : M.RunWhere ok [a] s' := .step a (.init hi) hok hs

/-- The last step of a run. -/
theorem RunWhere.last {tr : List α} {s' : σ} {a : α} (h : M.RunWhere ok (tr ++ [a]) s') :
    ∃ s, M.RunWhere ok tr s ∧ ok s a ∧ M.step s a = some s' := by
  generalize htr : tr ++ [a] = tr' at h
  cases h with
  | init _ => exact absurd htr (List.concat_ne_nil a tr)
  | step b hr hok hs =>
    obtain ⟨rfl, hab⟩ := List.append_inj' htr rfl
    obtain rfl := List.singleton_inj.mp hab
    exact ⟨_, hr, hok, hs⟩

/-- A property of trace and state that holds initially and is kept by each allowed step. -/
theorem RunWhere.invariant {I : List α → σ → Prop} (hinit : ∀ s, M.init s → I [] s)
    (hstep : ∀ tr s a s', M.Run tr s → I tr s → ok s a → M.step s a = some s' → I (tr ++ [a]) s')
    {tr : List α} {s : σ} (h : M.RunWhere ok tr s) : I tr s := by
  induction h with
  | init hi => exact hinit _ hi
  | step a hr hok hs ih => exact hstep _ _ _ _ hr.run ih hok hs

/-- An invariant of the states alone. -/
theorem RunWhere.state_invariant {I : σ → Prop} (hinit : ∀ s, M.init s → I s)
    (hstep : ∀ s a s', I s → M.step s a = some s' → I s') {tr : List α} {s : σ}
    (h : M.RunWhere ok tr s) : I s :=
  h.invariant (I := fun _ s => I s) hinit fun _ s a s' _ hI _ hs => hstep s a s' hI hs

/-! ## Counters -/

/-- The machine with a counter to which each step adds its weight. -/
def counting (M : Machine σ α) (weight : σ → α → Nat) : Machine (σ × Nat) α where
  init p := M.init p.1 ∧ p.2 = 0
  step p a := (M.step p.1 a).map fun s => (s, p.2 + weight p.1 a)

variable {weight : σ → α → Nat}

theorem counting_step {s s' : σ} {n n' : Nat} {a : α} :
    (M.counting weight).step (s, n) a = some (s', n') ↔
      M.step s a = some s' ∧ n' = n + weight s a := by
  simp [counting, eq_comm]

/-- A run has a count. -/
theorem RunWhere.counting {tr : List α} {s : σ} (h : M.RunWhere ok tr s) :
    ∃ n, (M.counting weight).RunWhere (fun p => ok p.1) tr (s, n) := by
  induction h with
  | init hi => exact ⟨0, .init ⟨hi, rfl⟩⟩
  | step a _ hok hs ih =>
    obtain ⟨n, hn⟩ := ih
    exact ⟨_, .step a hn hok (counting_step.mpr ⟨hs, rfl⟩)⟩

/-- A counted run is a run. -/
theorem RunWhere.of_counting {tr : List α} {p : σ × Nat}
    (h : (M.counting weight).RunWhere (fun p => ok p.1) tr p) : M.RunWhere ok tr p.1 := by
  induction h with
  | init hi => exact .init hi.1
  | step a _ hok hs ih => exact .step a ih hok (counting_step.mp hs).1

/-! ## Execution -/

variable (M) (ok)

/-- The actions `as` from `s` on, as long as `ok` allows them. -/
def execWhere [∀ s a, Decidable (ok s a)] (s : σ) : List α → Option σ
  | [] => some s
  | a :: as => if ok s a then (M.step s a).bind fun s' => execWhere s' as else none

variable {M} {ok}

theorem execWhere_extend [∀ s a, Decidable (ok s a)] {tr as : List α} {s s' : σ}
    (hr : M.RunWhere ok tr s) (h : M.execWhere ok s as = some s') :
    M.RunWhere ok (tr ++ as) s' := by
  induction as generalizing tr s with
  | nil =>
    rw [execWhere, Option.some.injEq] at h
    rw [List.append_nil]
    exact h ▸ hr
  | cons a as ih =>
    rw [execWhere] at h
    split at h
    · rename_i hok
      obtain ⟨t, ht, has⟩ := Option.bind_eq_some_iff.mp h
      rw [List.append_cons]
      exact ih (.step a hr hok ht) has
    · cases h

/-- What `execWhere` reaches from an initial state is reached by a run. -/
theorem execWhere_run [∀ s a, Decidable (ok s a)] {as : List α} {s s' : σ} (hi : M.init s)
    (h : M.execWhere ok s as = some s') : M.RunWhere ok as s' :=
  execWhere_extend (.init hi) h

/-- A run to a state with `P`, by executing its actions. -/
theorem exists_run [∀ s a, Decidable (ok s a)] {as : List α} {s : σ} {P : σ → Prop} (hi : M.init s)
    (h : ∃ s', M.execWhere ok s as = some s' ∧ P s') : ∃ s', M.RunWhere ok as s' ∧ P s' := by
  obtain ⟨s', hs, hp⟩ := h
  exact ⟨s', execWhere_run hi hs, hp⟩

end Machine

end Transition
