import BossranMenu.Lib.Machine
import Mathlib.Logic.Function.Basic

/-!
# Calls under a spin lock

A call is executed in steps on a shared state (`Body`). Threads call at any time; a thread executes
its call only while it has the lock, and it spins until it gets it. The steps of the threads come in
any order.

* `Body.Does`: what is left of a call, which each step makes less. It says how the call ends.
* `Inv.step`: at most one thread is inside, and what it has done is a part of its call.
* `serial_of_run`: while the lock is free, the shared state is that after the calls that have
  returned, one after the other.
-/

namespace SpinLock

open Transition

/-- How a call is executed, one access to the shared state at a time. -/
structure Body (σ α ρ : Type) where
  Local : Type
  start : α → Local
  step : σ → Local → σ × (Local ⊕ ρ)

section Body

variable {σ α ρ : Type} (b : Body σ α ρ)

/-- What is reached when the call is executed alone. -/
inductive Body.Reaches (s : σ) (a : α) : σ → b.Local → Prop
  | start : Reaches s a s (b.start a)
  | next {s' s'' : σ} {l l' : b.Local} : Reaches s a s' l → b.step s' l = (s'', .inl l') →
    Reaches s a s'' l'

/-- The call, executed alone, returns `r`. -/
def Body.Ends (s : σ) (a : α) (s' : σ) (r : ρ) : Prop :=
  ∃ s₁ l, b.Reaches s a s₁ l ∧ b.step s₁ l = (s', .inr r)

/-- `f` says what is left to be done, and each step does a part of it. -/
structure Body.Does (f : σ → b.Local → Option (σ × ρ)) : Prop where
  next {s s' : σ} {l l' : b.Local} : b.step s l = (s', .inl l') → f s l = f s' l'
  last {s s' : σ} {l : b.Local} {r : ρ} : b.step s l = (s', .inr r) → f s l = some (s', r)

theorem Body.Does.ends {b : Body σ α ρ} {f : σ → b.Local → Option (σ × ρ)} (hf : b.Does f)
    {s s' : σ} {a : α} {r : ρ} (h : b.Ends s a s' r) : f s (b.start a) = some (s', r) := by
  obtain ⟨s₁, l, hreaches, hlast⟩ := h
  rw [← hf.last hlast]
  clear hlast
  induction hreaches with
  | start => rfl
  | next _ hnext ih => exact ih.trans (hf.next hnext)

/-- If each step leaves less to do, what is left is done. -/
theorem Body.Does.ends_of {b : Body σ α ρ} {f : σ → b.Local → Option (σ × ρ)} (hf : b.Does f)
    (left : σ → b.Local → Nat) (hless : ∀ {s s' l l'}, b.step s l = (s', .inl l') →
      (f s l).isSome → left s' l' < left s l) {s s' : σ} {a : α} {r : ρ}
    (h : f s (b.start a) = some (s', r)) : b.Ends s a s' r := by
  suffices hgo : ∀ n s₁ l, left s₁ l = n → b.Reaches s a s₁ l → f s₁ l = some (s', r) →
      b.Ends s a s' r from hgo _ s _ rfl .start h
  intro n
  induction n using Nat.strongRecOn with
  | _ n ih =>
    rintro s₁ l rfl hreaches hleft
    rcases hstep : b.step s₁ l with ⟨s₂, l' | r'⟩
    · exact ih _ (hless hstep (by rw [hleft]; rfl)) s₂ l' rfl (.next hreaches hstep)
        ((hf.next hstep).symm.trans hleft)
    · obtain ⟨rfl, rfl⟩ := Prod.mk.inj (Option.some.inj ((hf.last hstep).symm.trans hleft))
      exact ⟨s₁, l, hreaches, hstep⟩

/-- The calls, each with its thread and its result, one after the other. `P` holds of each call in
the state in which it begins. -/
inductive Body.Serial {τ : Type} (P : σ → α → Prop) (s₀ : σ) : List (τ × α × ρ) → σ → Prop
  | nil : Serial P s₀ [] s₀
  | snoc {log : List (τ × α × ρ)} {s s' : σ} {t : τ} {a : α} {r : ρ} : Serial P s₀ log s → P s a →
    b.Ends s a s' r → Serial P s₀ (log ++ [(t, a, r)]) s'

/-- The call in the middle of a log began after those in front of it. -/
theorem Body.Serial.middle {τ : Type} {b : Body σ α ρ} {P : σ → α → Prop} {s₀ s : σ}
    {log pre post : List (τ × α × ρ)} {e : τ × α × ρ} (h : b.Serial P s₀ log s)
    (hlog : log = pre ++ e :: post) :
    ∃ s₁ s₂, b.Serial P s₀ pre s₁ ∧ P s₁ e.2.1 ∧ b.Ends s₁ e.2.1 s₂ e.2.2 := by
  induction h generalizing post with
  | nil => exact absurd hlog.symm (List.append_ne_nil_of_right_ne_nil pre (List.cons_ne_nil e post))
  | @snoc log s s' t a r hserial hP hends ih =>
    obtain rfl | ⟨post', last, rfl⟩ := List.eq_nil_or_concat' post
    · obtain ⟨rfl, he⟩ := List.append_inj' hlog rfl
      obtain rfl := List.singleton_inj.mp he
      exact ⟨s, s', hserial, hP, hends⟩
    · rw [← List.cons_append, ← List.append_assoc] at hlog
      exact ih (List.append_inj' hlog rfl).1

end Body

/-! ## Interleaving -/

/-- Where a thread is. -/
inductive Phase {σ α ρ : Type} (b : Body σ α ρ) where
  | idle
  | waiting (a : α)
  | inside (a : α) (l : b.Local)
  | leaving (a : α) (r : ρ)

namespace Phase

variable {σ α ρ : Type} {b : Body σ α ρ}

/-- The thread has the lock. -/
def busy : Phase b → Prop
  | .inside _ _ | .leaving _ _ => True
  | .idle | .waiting _ => False

/-- The call that has not returned. -/
def pending : Phase b → List α
  | .idle => []
  | .waiting a | .inside a _ | .leaving a _ => [a]

end Phase

structure State (τ : Type) {σ α ρ : Type} (b : Body σ α ρ) where
  locked : Bool
  shared : σ
  phase : τ → Phase b

inductive Act (τ α ρ : Type) where
  | call (t : τ) (a : α)
  /-- A compare-and-swap of the flag. -/
  | tryEnter (t : τ)
  | work (t : τ)
  | leave (t : τ) (r : ρ)

section Machine

variable {τ σ α ρ : Type} [DecidableEq τ] {b : Body σ α ρ}

def State.goto (S : State τ b) (t : τ) (p : Phase b) : State τ b :=
  { S with phase := Function.update S.phase t p }

@[simp] theorem goto_locked (S : State τ b) (t : τ) (p : Phase b) :
    (S.goto t p).locked = S.locked := rfl

@[simp] theorem goto_shared (S : State τ b) (t : τ) (p : Phase b) :
    (S.goto t p).shared = S.shared := rfl

@[simp] theorem goto_self (S : State τ b) (t : τ) (p : Phase b) : (S.goto t p).phase t = p :=
  Function.update_self ..

theorem goto_of_ne (S : State τ b) (p : Phase b) {t u : τ} (h : u ≠ t) :
    (S.goto t p).phase u = S.phase u := Function.update_of_ne h ..

def step [DecidableEq ρ] (S : State τ b) : Act τ α ρ → Option (State τ b)
  | .call t a => match S.phase t with
    | .idle => some (S.goto t (.waiting a))
    | _ => none
  | .tryEnter t => match S.phase t with
    | .waiting a =>
      if S.locked then some S
      else some ({ S with locked := true }.goto t (.inside a (b.start a)))
    | _ => none
  | .work t => match S.phase t with
    | .inside a l => match b.step S.shared l with
      | (s, .inl l') => some ({ S with shared := s }.goto t (.inside a l'))
      | (s, .inr r) => some ({ S with shared := s }.goto t (.leaving a r))
    | _ => none
  | .leave t r => match S.phase t with
    | .leaving _ r' => if r = r' then some ({ S with locked := false }.goto t .idle) else none
    | _ => none

/-- Everything that a step can do. -/
theorem step_cases [DecidableEq ρ] {S S' : State τ b} {act : Act τ α ρ} (hs : step S act = some S') :
    (∃ t a, act = .call t a ∧ S.phase t = .idle ∧ S' = S.goto t (.waiting a)) ∨
    (∃ t a, act = .tryEnter t ∧ S.phase t = .waiting a ∧ S.locked = true ∧ S' = S) ∨
    (∃ t a, act = .tryEnter t ∧ S.phase t = .waiting a ∧ S.locked = false ∧
      S' = { S with locked := true }.goto t (.inside a (b.start a))) ∨
    (∃ t a l s l', act = .work t ∧ S.phase t = .inside a l ∧ b.step S.shared l = (s, .inl l') ∧
      S' = { S with shared := s }.goto t (.inside a l')) ∨
    (∃ t a l s r, act = .work t ∧ S.phase t = .inside a l ∧ b.step S.shared l = (s, .inr r) ∧
      S' = { S with shared := s }.goto t (.leaving a r)) ∨
    (∃ t a r, act = .leave t r ∧ S.phase t = .leaving a r ∧
      S' = { S with locked := false }.goto t .idle) := by
  unfold step at hs
  grind

/-- The threads begin outside. -/
def machine (τ : Type) [DecidableEq τ] [DecidableEq ρ] (b : Body σ α ρ) (s₀ : σ) :
    Machine (State τ b) (Act τ α ρ) where
  init S := S.locked = false ∧ S.shared = s₀ ∧ ∀ t, S.phase t = .idle
  step := step

/-- `P` holds of a call when it gets the lock. -/
def enterOk (P : σ → α → Prop) (S : State τ b) : Act τ α ρ → Prop
  | .tryEnter t => ∀ a, S.phase t = .waiting a → S.locked = false → P S.shared a
  | _ => True

instance (P : σ → α → Prop) [∀ s a, Decidable (P s a)] (S : State τ b) :
    (act : Act τ α ρ) → Decidable (enterOk P S act)
  | .tryEnter t => match hph : S.phase t with
    | .waiting a => decidable_of_iff (S.locked = false → P S.shared a)
        ⟨fun h _ ha => Phase.waiting.inj (hph.symm.trans ha) ▸ h, fun h => h a hph⟩
    | .idle | .inside _ _ | .leaving _ _ => isTrue fun _ ha => by
        rw [hph] at ha
        cases ha
  | .call _ _ | .work _ | .leave _ _ => isTrue trivial

/-- The calls of the thread, in the order in which it made them. -/
def callsOf (t : τ) (tr : List (Act τ α ρ)) : List α :=
  tr.filterMap fun
    | .call u a => if u = t then some a else none
    | _ => none

/-- What was returned, and to whom. -/
def returns (tr : List (Act τ α ρ)) : List (τ × ρ) :=
  tr.filterMap fun
    | .leave t r => some (t, r)
    | _ => none

/-- The calls of a log that a thread made. -/
def madeBy (t : τ) (log : List (τ × α × ρ)) : List α :=
  log.filterMap fun e => if e.1 = t then some e.2.1 else none

/-- Where the thread that has the lock is in its call, which began in `s`. -/
def Phase.Begun (s s' : σ) : Phase b → Prop
  | .inside a l => b.Reaches s a s' l
  | .leaving a r => b.Ends s a s' r
  | .idle | .waiting _ => False

/-- The call that is executed may begin in `s`. -/
def Phase.Allowed (P : σ → α → Prop) (s : σ) (p : Phase b) : Prop := ∀ a ∈ p.pending, P s a

/-- The calls that have returned, and the one that is executed. -/
structure Inv (P : σ → α → Prop) (s₀ : σ) (tr : List (Act τ α ρ)) (S : State τ b)
    (log : List (τ × α × ρ)) : Prop where
  returned : log.map (fun e => (e.1, e.2.2)) = returns tr
  called : ∀ t, callsOf t tr = madeBy t log ++ (S.phase t).pending
  free : S.locked = false → b.Serial P s₀ log S.shared ∧ ∀ t, ¬ (S.phase t).busy
  held : S.locked = true → ∃ t s, b.Serial P s₀ log s ∧ (S.phase t).Begun s S.shared ∧
    (S.phase t).Allowed P s ∧ ∀ u, u ≠ t → ¬ (S.phase u).busy

variable {P : σ → α → Prop} {s₀ : σ} {tr : List (Act τ α ρ)} {S S' : State τ b}
  {log : List (τ × α × ρ)} {act : Act τ α ρ} {t u : τ}

namespace Inv

theorem init [DecidableEq ρ] (hs : (machine τ b s₀).init S) : Inv P s₀ [] S [] := by
  obtain ⟨hfree, rfl, hidle⟩ := hs
  refine ⟨rfl, fun t => ?_, fun _ => ⟨.nil, fun t => ?_⟩, fun hheld => ?_⟩
  · rw [hidle t]
    rfl
  · rw [hidle t]
    exact id
  · rw [hfree] at hheld
    cases hheld

/-- The thread that is inside has the lock, and no other has. -/
theorem holder (hI : Inv P s₀ tr S log) (ht : (S.phase t).busy) : S.locked = true ∧
    (∃ s, b.Serial P s₀ log s ∧ (S.phase t).Begun s S.shared ∧ (S.phase t).Allowed P s) ∧
    ∀ u, u ≠ t → ¬ (S.phase u).busy := by
  cases hl : S.locked with
  | false => exact absurd ht ((hI.free hl).2 t)
  | true =>
    obtain ⟨h, s, hserial, hbegun, hallowed, hothers⟩ := hI.held hl
    have hth : t = h := by
      by_contra hne
      exact hothers t hne ht
    subst hth
    exact ⟨rfl, ⟨s, hserial, hbegun, hallowed⟩, hothers⟩

/-- The thread that has the lock goes on in its call. -/
theorem work (hI : Inv P s₀ tr S log) (ht : (S.phase t).busy) {s : σ} {p : Phase b}
    (hret : returns (tr ++ [act]) = returns tr)
    (hcalls : ∀ u, callsOf u (tr ++ [act]) = callsOf u tr)
    (hpending : p.pending = (S.phase t).pending)
    (hbegun : ∀ s₁, (S.phase t).Begun s₁ S.shared → p.Begun s₁ s) :
    Inv P s₀ (tr ++ [act]) ({ S with shared := s }.goto t p) log := by
  obtain ⟨hl, ⟨s₁, hserial, hhere, hallowed⟩, hothers⟩ := hI.holder ht
  refine ⟨hI.returned.trans hret.symm, fun u => ?_, fun hfree => ?_, fun _ => ?_⟩
  · rw [hcalls u, hI.called u]
    by_cases hu : u = t
    · rw [hu, goto_self, hpending]
    · rw [goto_of_ne _ _ hu]
  · exact absurd (hl.symm.trans hfree) Bool.noConfusion
  · refine ⟨t, s₁, hserial, ?_, ?_, fun u hu => ?_⟩
    · rw [goto_self]
      exact hbegun s₁ hhere
    · rw [goto_self, Phase.Allowed, hpending]
      exact hallowed
    · rw [goto_of_ne _ _ hu]
      exact hothers u hu

end Inv

omit [DecidableEq τ] in
theorem returns_append (tr tr' : List (Act τ α ρ)) :
    returns (tr ++ tr') = returns tr ++ returns tr' := List.filterMap_append

theorem callsOf_append (t : τ) (tr tr' : List (Act τ α ρ)) :
    callsOf t (tr ++ tr') = callsOf t tr ++ callsOf t tr' := List.filterMap_append

/-- Each step of a thread keeps the invariant. -/
theorem Inv.step [DecidableEq ρ] (hI : Inv P s₀ tr S log)
    (hok : ∀ t a, act = .tryEnter t → S.phase t = .waiting a → S.locked = false → P S.shared a)
    (hs : step S act = some S') : ∃ log', Inv P s₀ (tr ++ [act]) S' log' := by
  obtain ⟨t, a, rfl, hph, rfl⟩ | ⟨t, a, rfl, hph, hl, rfl⟩ | ⟨t, a, rfl, hph, hl, rfl⟩ |
    ⟨t, a, l, s, l', rfl, hph, hb, rfl⟩ | ⟨t, a, l, s, r, rfl, hph, hb, rfl⟩ |
    ⟨t, a, r, rfl, hph, rfl⟩ := step_cases hs
  · -- a thread calls
    have hout : ∀ u, ¬ (S.phase u).busy → ¬ ((S.goto t (.waiting a)).phase u).busy := by
      intro u hu
      by_cases hut : u = t
      · rw [hut, goto_self]
        exact id
      · rwa [goto_of_ne _ _ hut]
    refine ⟨log, ?_, fun u => ?_, fun hfree => ?_, fun hheld => ?_⟩
    · rw [returns_append, hI.returned]
      exact (List.append_nil _).symm
    · rw [callsOf_append, hI.called u]
      by_cases hu : u = t
      · subst hu
        rw [goto_self, hph]
        simp [callsOf, Phase.pending]
      · rw [goto_of_ne _ _ hu]
        have hne : ¬ t = u := fun h => hu h.symm
        simp [callsOf, hne]
    · obtain ⟨hserial, hnone⟩ := hI.free hfree
      exact ⟨hserial, fun u => hout u (hnone u)⟩
    · obtain ⟨h, s, hserial, hbegun, hallowed, hothers⟩ := hI.held hheld
      have hht : h ≠ t := by
        rintro rfl
        rw [hph] at hbegun
        exact hbegun
      refine ⟨h, s, hserial, ?_, ?_, fun u hu => hout u (hothers u hu)⟩
      · rw [goto_of_ne _ _ hht]
        exact hbegun
      · rw [goto_of_ne _ _ hht]
        exact hallowed
  · -- it spins
    refine ⟨log, ?_, fun u => ?_, hI.free, hI.held⟩
    · rw [returns_append, hI.returned]
      exact (List.append_nil _).symm
    · rw [callsOf_append, hI.called u]
      simp [callsOf]
  · -- it gets the lock
    obtain ⟨hserial, hnone⟩ := hI.free hl
    refine ⟨log, ?_, fun u => ?_, fun hfree => ?_, fun _ => ?_⟩
    · rw [returns_append, hI.returned]
      exact (List.append_nil _).symm
    · rw [callsOf_append, hI.called u]
      by_cases hu : u = t
      · subst hu
        rw [goto_self, hph]
        simp [callsOf, Phase.pending]
      · rw [goto_of_ne _ _ hu]
        simp [callsOf]
    · cases hfree
    · refine ⟨t, S.shared, hserial, ?_, ?_, fun u hu => ?_⟩
      · rw [goto_self]
        exact .start
      · rw [goto_self]
        intro a' ha'
        obtain rfl := List.mem_singleton.mp ha'
        exact hok t a' rfl hph hl
      · rw [goto_of_ne _ _ hu]
        exact hnone u
  · -- it goes on
    refine ⟨log, hI.work (by rw [hph]; trivial) ?_ (fun u => ?_) (by rw [hph]; rfl) ?_⟩
    · rw [returns_append]
      exact List.append_nil _
    · rw [callsOf_append]
      exact List.append_nil _
    · rw [hph]
      exact fun s₁ hreaches => .next hreaches hb
  · -- its call ends
    refine ⟨log, hI.work (by rw [hph]; trivial) ?_ (fun u => ?_) (by rw [hph]; rfl) ?_⟩
    · rw [returns_append]
      exact List.append_nil _
    · rw [callsOf_append]
      exact List.append_nil _
    · rw [hph]
      exact fun s₁ hreaches => ⟨_, l, hreaches, hb⟩
  · -- it leaves
    have ht : (S.phase t).busy := by
      rw [hph]
      trivial
    obtain ⟨hl, ⟨s, hserial, hends, hallowed⟩, hothers⟩ := hI.holder ht
    rw [hph] at hends hallowed
    refine ⟨log ++ [(t, a, r)], ?_, fun u => ?_, fun _ => ⟨?_, fun u => ?_⟩, fun hheld => ?_⟩
    · rw [List.map_append, hI.returned, returns_append]
      rfl
    · rw [callsOf_append, hI.called u]
      by_cases hu : u = t
      · subst hu
        rw [goto_self, hph]
        simp [callsOf, madeBy, Phase.pending]
      · rw [goto_of_ne _ _ hu]
        have hne : ¬ t = u := fun h => hu h.symm
        simp [callsOf, madeBy, hne]
    · exact .snoc hserial (hallowed a (List.mem_singleton_self a)) hends
    · by_cases hu : u = t
      · rw [hu, goto_self]
        exact id
      · rw [goto_of_ne _ _ hu]
        exact hothers u hu
    · cases hheld

/-- In any order of the steps: at most one thread is inside. Each thread is returned the results of
its calls in the order in which it made them, and while the lock is free the shared state is that
after these calls, one after the other. -/
theorem serial_of_run [DecidableEq ρ] (hr : (machine τ b s₀).RunWhere (enterOk P) tr S) :
    ∃ log, Inv P s₀ tr S log := by
  refine hr.invariant (I := fun tr S => ∃ log, Inv P s₀ tr S log) ?_ ?_
  · exact fun S hs => ⟨[], Inv.init hs⟩
  · rintro tr S act S' - ⟨log, hI⟩ hok hs
    refine hI.step (fun t a heq hph hl => ?_) hs
    subst heq
    exact hok a hph hl

/-- Whether or not the lock is free, the calls that have returned came one after the other. -/
theorem Inv.serial (hI : Inv P s₀ tr S log) : ∃ s, b.Serial P s₀ log s := by
  cases hl : S.locked with
  | false => exact ⟨_, (hI.free hl).1⟩
  | true =>
    obtain ⟨-, s, hserial, -⟩ := hI.held hl
    exact ⟨s, hserial⟩

theorem Inv.exclusive (hI : Inv P s₀ tr S log) (ht : (S.phase t).busy) (hu : (S.phase u).busy) :
    t = u := by
  by_contra hne
  exact (hI.holder ht).2.2 u (Ne.symm hne) hu

end Machine

end SpinLock
