import Mathlib.Data.List.Basic

/-!
# Handles that a computation opens and closes

`Event` records that a handle was opened or closed. `acquire` and `release` append to the events of
a state monad; in `Tracked` the events stay when the computation fails.

* `ClosedOnce es`: every handle that was opened has been closed once, after it was opened, and no
  other handle has been closed.
* `openCount es h`: how many handles `h` are open after the events, if none was open before.
-/

namespace Handles

inductive Event (κ : Type) where
  | opened (h : κ)
  | closed (h : κ)
  deriving DecidableEq

def Event.handle {κ : Type} : Event κ → κ
  | .opened h => h
  | .closed h => h

/-- A computation that opens and closes handles and may fail with an `ε`. -/
abbrev Tracked (κ ε : Type) := ExceptT ε (StateM (List (Event κ)))

section

variable {κ : Type} {m : Type → Type}

def acquire [MonadStateOf (List (Event κ)) m] (h : κ) : m PUnit := modify (· ++ [.opened h])

def release [MonadStateOf (List (Event κ)) m] (h : κ) : m PUnit := modify (· ++ [.closed h])

namespace Tracked

variable {ε α β : Type}

/-- The result of a computation that starts after the events `es`, and the events after it. -/
def after (es : List (Event κ)) (x : Tracked κ ε α) : Except ε α × List (Event κ) := x.run es

/-- The result of a computation that starts without events, and its events. -/
def exec (x : Tracked κ ε α) : Except ε α × List (Event κ) := x.after []

variable (es : List (Event κ))

@[simp] theorem after_pure (a : α) : (pure a : Tracked κ ε α).after es = (.ok a, es) := rfl

@[simp] theorem after_throw (e : ε) : (throw e : Tracked κ ε α).after es = (.error e, es) := rfl

@[simp] theorem after_acquire (h : κ) :
    (acquire h : Tracked κ ε PUnit).after es = (.ok ⟨⟩, es ++ [.opened h]) := rfl

@[simp] theorem after_release (h : κ) :
    (release h : Tracked κ ε PUnit).after es = (.ok ⟨⟩, es ++ [.closed h]) := rfl

@[simp] theorem after_bind (x : Tracked κ ε α) (f : α → Tracked κ ε β) :
    (x >>= f).after es =
      match x.after es with
      | (.ok a, es') => (f a).after es'
      | (.error e, es') => (.error e, es') := by
  show ExceptT.bindCont f (x.after es).1 (x.after es).2 = _
  rcases x.after es with ⟨_ | _, _⟩ <;> rfl

@[simp] theorem after_map (x : Tracked κ ε α) (f : α → β) :
    (f <$> x).after es = ((x.after es).1.map f, (x.after es).2) := by
  refine (after_bind es x fun a => pure (f a)).trans ?_
  rcases x.after es with ⟨_ | _, _⟩ <;> rfl

@[simp] theorem after_ite (p : Prop) [Decidable p] (x y : Tracked κ ε α) :
    (if p then x else y).after es = if p then x.after es else y.after es := by
  split <;> rfl

end Tracked

variable [DecidableEq κ]

/-- Each handle was opened and then closed, or was not touched. -/
def ClosedOnce (es : List (Event κ)) : Prop :=
  ∀ h, es.filter (·.handle = h) = [] ∨ es.filter (·.handle = h) = [.opened h, .closed h]

/-! ## Open handles -/

def openCount (es : List (Event κ)) (h : κ) : Int := es.count (.opened h) - es.count (.closed h)

@[simp] theorem openCount_nil (h : κ) : openCount [] h = 0 := rfl

@[simp] theorem openCount_append (es es' : List (Event κ)) (h : κ) :
    openCount (es ++ es') h = openCount es h + openCount es' h := by
  unfold openCount
  rw [List.count_append, List.count_append]
  omega

@[simp] theorem openCount_cons_opened (k h : κ) (es : List (Event κ)) :
    openCount (.opened k :: es) h = openCount es h + if k = h then 1 else 0 := by
  unfold openCount
  by_cases hk : k = h
  · simp only [hk, List.count_cons_self, List.count_cons_of_ne, ne_eq, reduceCtorEq,
      not_false_eq_true, if_true]
    omega
  · simp [hk]

@[simp] theorem openCount_cons_closed (k h : κ) (es : List (Event κ)) :
    openCount (.closed k :: es) h = openCount es h - if k = h then 1 else 0 := by
  unfold openCount
  by_cases hk : k = h
  · simp only [hk, List.count_cons_self, List.count_cons_of_ne, ne_eq, reduceCtorEq,
      not_false_eq_true, if_true]
    omega
  · simp [hk]

end

end Handles
