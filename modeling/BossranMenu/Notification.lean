import Mathlib.Data.Rat.Defs
import Mathlib.Algebra.Order.Field.Rat

/-!
# Notifications (`Notification.h`, `main.cpp`)

`notifications` is a list, the oldest first. Times are exact numbers of seconds.
-/

namespace Bossran

structure Notification where
  icon : String
  message : String
  information : String
  /-- In seconds. -/
  duration : ℚ
  start_time : ℚ
  color : BitVec 32
  deriving DecidableEq

/-- The notification that `ShowNotification` pushes at the time `now`. -/
def notification (icon information message : String) (duration_ms : Int) (color : BitVec 32)
    (now : ℚ) : Notification where
  icon := icon
  message := message
  information := information
  duration := duration_ms / 1000
  start_time := now
  color := color

/-- `IM_COL32(255, 255, 255, 255)` -/
def white : BitVec 32 := 0xFFFFFFFF

/-- `RenderNotifications` from index `i` on: what stays, and what is drawn in which window. -/
def renderNotifications (now : ℚ) (i : Nat) : List Notification →
    List Notification × List (Nat × Notification)
  | [] => ([], [])
  | n :: ns =>
    let elapsed := now - n.start_time
    if elapsed > n.duration then renderNotifications now i ns
    else
      let (kept, drawn) := renderNotifications now (i + 1) ns
      (n :: kept, (i, n) :: drawn)

/-- The notifications that are not over stay, in their order. -/
theorem renderNotifications_fst (now : ℚ) (i : Nat) (ns : List Notification) :
    (renderNotifications now i ns).1 = ns.filter fun n => now - n.start_time ≤ n.duration := by
  induction ns generalizing i with
  | nil => rfl
  | cons n ns ih =>
    rw [renderNotifications, List.filter_cons]
    by_cases h : now - n.start_time > n.duration
    · simp [h, ih, not_le.mpr h]
    · simp [h, ih, not_lt.mp h]

/-- The notifications that stay are drawn, each in the slot of its place among them. -/
theorem renderNotifications_snd (now : ℚ) (i : Nat) (ns : List Notification) :
    (renderNotifications now i ns).2 =
      ((ns.filter fun n => now - n.start_time ≤ n.duration).zipIdx i).map Prod.swap := by
  induction ns generalizing i with
  | nil => rfl
  | cons n ns ih =>
    rw [renderNotifications, List.filter_cons]
    by_cases h : now - n.start_time > n.duration
    · simp [h, ih, not_le.mpr h]
    · simp [h, ih, not_lt.mp h]

end Bossran
