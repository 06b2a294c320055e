import BossranMenu.Notification
import BossranMenu.Scan.Sites

/-!
# The hotkeys of the menu (`Form2` in `main.cpp`)

A frame of `Form2` shows one of two tabs. Only the main tab looks at the check boxes and at the
three hotkeys, and only there are the key states kept that tell a new press from a held key. Behind
the hotkeys, Alt+Z switches the auto skill, with a notification of its own.

* `frame_flags`, `frame_notifications`: what a frame of the main tab does.
* `frames_last`: the key states kept are those of the last frame of the main tab.
* `countsOnce_iff`: so every press counts once exactly if a key that is down in a frame of the main
  tab was in the same state in the frame before it and in the last frame of the main tab.
-/

namespace Bossran

inductive Hotkey where
  /-- `VK_RMENU` -/
  | rightAlt
  | f8
  | f9
  deriving DecidableEq

namespace Hotkey

/-- The check box of a hotkey. -/
def flag : Hotkey → Flag
  | .rightAlt => .space
  | .f8 => .autored
  | .f9 => .vend

def icon : Hotkey → String
  | .rightAlt => "Auto Space"
  | .f8 => "Red Name"
  | .f9 => "Anti Move"

def message : Hotkey → Bool → String
  | .rightAlt, true => "Auto Space is ON"
  | .rightAlt, false => "Auto Space is OFF"
  | .f8, true => "Red Name is ON"
  | .f8, false => "Red Name is OFF"
  | .f9, true => "Anti move is ON"
  | .f9, false => "Anti move is OFF"

def color (on : Bool) : BitVec 32 := if on then 0xFF00FF00 else 0xFFFF0000

/-- The notification about the new value of the flag. -/
def notice (k : Hotkey) (on : Bool) (now : ℚ) : Notification :=
  notification k.icon "System" (k.message on) 2000 (color on) now

/-- The message ends with the new value. -/
theorem message_eq (k : Hotkey) : ∃ name, ∀ on,
    k.message on = name ++ " is " ++ if on then "ON" else "OFF" := by
  cases k
  · exact ⟨"Auto Space", by decide⟩
  · exact ⟨"Red Name", by decide⟩
  · exact ⟨"Anti move", by decide⟩

theorem flag_injective : Function.Injective flag := by
  intro k k' h
  cases k <;> cases k' <;> first | rfl | cases h

end Hotkey

/-- The hotkeys in the order in which `Form2` handles them. -/
def hotkeys : List Hotkey := [.rightAlt, .f8, .f9]

/-- What a rendered frame of `Form2` meets. -/
structure Form2Frame where
  /-- `HEAD_1` is selected, else `HEAD_4`. -/
  main : Bool
  /-- The check boxes that are clicked. -/
  clicked : Flag → Bool
  /-- `GetAsyncKeyState` reports the key as down. -/
  down : Hotkey → Bool
  /-- The clock in `RenderNotifications`. -/
  renderTime : ℚ
  /-- The clock in `ShowNotification`. -/
  showTime : Hotkey → ℚ
  /-- `VK_MENU` and `Z` are both reported as down. -/
  altZ : Bool
  /-- The check box of the auto skill is clicked. -/
  skillClicked : Bool
  /-- The clock in `ShowNotification`, for the auto skill. -/
  skillTime : ℚ

structure Form2State where
  flags : Flags
  /-- `lastAltState`, `lastF8State` and `lastF9State`. -/
  last : Hotkey → Bool
  notifications : List Notification
  /-- The auto skill is on. -/
  isToggled : Bool
  wasPressed : Bool

/-- The notification about the auto skill. -/
def skillNotice (on : Bool) (now : ℚ) : Notification :=
  if on then notification "Auto Skill" "System" "Auto Skill is ON" 2000 0xFF00FF00 now
  else notification "Auto Skill" "System" "Auto Skill is OFF" 2000 0xFFFF4444 now

namespace Form2State

/-- The handling of one hotkey. -/
def press (f : Form2Frame) (s : Form2State) (k : Hotkey) : Form2State :=
  if f.down k && !s.last k then
    if !s.flags k.flag then
      { s with
        flags := Function.update s.flags k.flag true
        notifications := s.notifications ++ [k.notice true (f.showTime k)] }
    else
      { s with
        flags := Function.update s.flags k.flag false
        notifications := s.notifications ++ [k.notice false (f.showTime k)] }
  else s

/-- The flags once the check boxes of the frame are handled. -/
def afterClicks (s : Form2State) (f : Form2Frame) : Flags :=
  if f.main then fun c => s.flags c ^^ f.clicked c else s.flags

/-- The notifications once the frame has rendered them. -/
def rendered (s : Form2State) (f : Form2Frame) : List Notification :=
  if f.main then (renderNotifications f.renderTime 0 s.notifications).1 else s.notifications

/-- The handling of Alt+Z. -/
def autoSkill (s : Form2State) (f : Form2Frame) : Form2State :=
  if f.altZ then
    if !s.wasPressed then
      { s with
        isToggled := !s.isToggled
        wasPressed := true
        notifications := s.notifications ++ [skillNotice (!s.isToggled) f.skillTime] }
    else s
  else { s with wasPressed := false }

/-- A frame. The other tab handles neither check boxes nor hotkeys. -/
def frame (s : Form2State) (f : Form2Frame) : Form2State :=
  let s := { s with flags := s.afterClicks f, notifications := s.rendered f }
  if f.main then
    let s := autoSkill { hotkeys.foldl (press f) s with last := f.down } f
    { s with isToggled := s.isToggled ^^ f.skillClicked }
  else s

/-- What the frame notifies about the auto skill. -/
def skillNotices (s : Form2State) (f : Form2Frame) : List Notification :=
  if f.main && f.altZ && !s.wasPressed then [skillNotice (!s.isToggled) f.skillTime] else []

/-- The hotkey flips its flag in the frame. -/
def Flips (s : Form2State) (f : Form2Frame) (k : Hotkey) : Prop :=
  (s.frame f).flags k.flag ≠ s.afterClicks f k.flag

instance (s : Form2State) (f : Form2Frame) (k : Hotkey) : Decidable (s.Flips f k) :=
  inferInstanceAs (Decidable (_ ≠ _))

end Form2State

/-- The frames from the first one on. -/
def frames (flags : Flags) (notifications : List Notification) (fs : List Form2Frame) :
    Form2State :=
  fs.foldl Form2State.frame ⟨flags, fun _ => false, notifications, false, false⟩

/-- The key was down in the last rendered frame. -/
def downBefore (fs : List Form2Frame) (k : Hotkey) : Bool :=
  match fs.getLast? with
  | some f => f.down k
  | none => false

/-- The key was down in the last frame of the main tab. -/
def downOnMain (fs : List Form2Frame) (k : Hotkey) : Bool := downBefore (fs.filter (·.main)) k

/-- Each press of a hotkey counts once, and is notified, before what the frame notifies about the
auto skill. -/
structure CountsOnce (flags : Flags) (notifications : List Notification) (fs : List Form2Frame) :
    Prop where
  flips : ∀ pre f post, fs = pre ++ f :: post → ∀ k,
    (frames flags notifications pre).Flips f k ↔
      f.main = true ∧ f.down k = true ∧ downBefore pre k = false
  notified : ∀ pre f post, fs = pre ++ f :: post →
    (frames flags notifications (pre ++ [f])).notifications =
      (frames flags notifications pre).rendered f ++
        ((hotkeys.filter fun k => (frames flags notifications pre).Flips f k).map fun k =>
          k.notice ((frames flags notifications (pre ++ [f])).flags k.flag) (f.showTime k)) ++
        (frames flags notifications pre).skillNotices f

/-! ## A frame -/

namespace Form2State

/-- The frame takes the key for newly pressed. -/
def triggered (s : Form2State) (f : Form2Frame) (k : Hotkey) : Bool := f.down k && !s.last k

theorem press_eq (f : Form2Frame) (s : Form2State) (k : Hotkey) : s.press f k =
    { s with
      flags := Function.update s.flags k.flag (s.flags k.flag ^^ s.triggered f k)
      notifications := s.notifications ++
        if s.triggered f k then [k.notice (!s.flags k.flag) (f.showTime k)] else [] } := by
  unfold press triggered
  cases f.down k && !s.last k with
  | false => simp
  | true => cases s.flags k.flag <;> simp

/-- The handling of several hotkeys: each newly pressed one flips its flag and is notified. -/
theorem foldl_press (f : Form2Frame) (s : Form2State) {ks : List Hotkey} (h : ks.Nodup) :
    (∀ k ∈ ks, (ks.foldl (press f) s).flags k.flag = (s.flags k.flag ^^ s.triggered f k)) ∧
    (∀ c, (∀ k ∈ ks, k.flag ≠ c) → (ks.foldl (press f) s).flags c = s.flags c) ∧
    (ks.foldl (press f) s).notifications = s.notifications ++
      (ks.filter (s.triggered f)).map fun k => k.notice (!s.flags k.flag) (f.showTime k) := by
  induction ks generalizing s with
  | nil => simp
  | cons k ks ih =>
    obtain ⟨hk, hks⟩ := List.nodup_cons.mp h
    obtain ⟨hin, hout, hnotes⟩ := ih (s.press f k) hks
    have htrig : (s.press f k).triggered f = s.triggered f := by
      funext k'
      rw [press_eq]
      rfl
    have hother : ∀ k' ∈ ks, (s.press f k).flags k'.flag = s.flags k'.flag := by
      intro k' hk'
      rw [press_eq]
      refine Function.update_of_ne (fun heq => hk ?_) _ _
      rwa [← Hotkey.flag_injective heq]
    rw [List.foldl_cons]
    refine ⟨fun k' hk' => ?_, fun c hc => ?_, ?_⟩
    · rcases List.mem_cons.mp hk' with rfl | hk'
      · have hdiff : ∀ j ∈ ks, j.flag ≠ k'.flag := fun j hj heq =>
          hk (Hotkey.flag_injective heq ▸ hj)
        rw [hout _ hdiff, press_eq]
        exact Function.update_self _ _ _
      · rw [hin k' hk', htrig, hother k' hk']
    · rw [hout c fun j hj => hc j (List.mem_cons_of_mem _ hj), press_eq]
      exact Function.update_of_ne (hc k (List.mem_cons_self ..)).symm _ _
    · rw [hnotes, htrig]
      have hmap : (ks.filter (s.triggered f)).map
          (fun k' => k'.notice (!(s.press f k).flags k'.flag) (f.showTime k')) =
          (ks.filter (s.triggered f)).map
            fun k' => k'.notice (!s.flags k'.flag) (f.showTime k') :=
        List.map_congr_left fun k' hk' => by rw [hother k' (List.mem_of_mem_filter hk')]
      rw [hmap, press_eq, List.filter_cons]
      cases s.triggered f k <;> simp

theorem mem_hotkeys (k : Hotkey) : k ∈ hotkeys := by cases k <;> decide

theorem nodup_hotkeys : hotkeys.Nodup := by decide

variable (s : Form2State) (f : Form2Frame)

theorem foldl_press_skill (ks : List Hotkey) :
    (ks.foldl (press f) s).isToggled = s.isToggled ∧
    (ks.foldl (press f) s).wasPressed = s.wasPressed := by
  induction ks generalizing s with
  | nil => exact ⟨rfl, rfl⟩
  | cons k ks ih =>
    rw [List.foldl_cons, (ih _).1, (ih _).2, press_eq]
    exact ⟨rfl, rfl⟩

@[simp] theorem autoSkill_flags : (s.autoSkill f).flags = s.flags := by
  unfold autoSkill
  split_ifs <;> rfl

@[simp] theorem autoSkill_last : (s.autoSkill f).last = s.last := by
  unfold autoSkill
  split_ifs <;> rfl

theorem autoSkill_notifications : (s.autoSkill f).notifications = s.notifications ++
    if f.altZ && !s.wasPressed then [skillNotice (!s.isToggled) f.skillTime] else [] := by
  unfold autoSkill
  cases f.altZ <;> cases s.wasPressed <;> simp

/-- A frame of the main tab flips the flags of the newly pressed hotkeys. -/
theorem frame_flags (k : Hotkey) : (s.frame f).flags k.flag =
    (s.afterClicks f k.flag ^^ (f.main && s.triggered f k)) := by
  unfold frame
  cases hm : f.main with
  | false => simp
  | true =>
    simp only [if_true, autoSkill_flags, Bool.true_and]
    exact (foldl_press f _ nodup_hotkeys).1 k (mem_hotkeys k)

theorem flips_iff {k : Hotkey} :
    s.Flips f k ↔ f.main = true ∧ f.down k = true ∧ s.last k = false := by
  rw [Flips, frame_flags, triggered]
  cases s.afterClicks f k.flag <;> cases f.main <;> cases f.down k <;> cases s.last k <;> simp

/-- A frame pushes one notification for every flag that a hotkey flips, and then the one about the
auto skill, if Alt+Z is newly down. -/
theorem frame_notifications : (s.frame f).notifications = s.rendered f ++
    ((hotkeys.filter fun k => s.Flips f k).map fun k =>
      k.notice ((s.frame f).flags k.flag) (f.showTime k)) ++ s.skillNotices f := by
  have hflips : ∀ k, s.Flips f k → (s.frame f).flags k.flag = !s.afterClicks f k.flag := by
    intro k hk
    cases h : s.afterClicks f k.flag <;> cases h' : (s.frame f).flags k.flag <;>
      simp_all [Flips]
  have hmap : ((hotkeys.filter fun k => s.Flips f k).map fun k =>
      k.notice ((s.frame f).flags k.flag) (f.showTime k)) =
      (hotkeys.filter fun k => s.Flips f k).map fun k =>
        k.notice (!s.afterClicks f k.flag) (f.showTime k) :=
    List.map_congr_left fun k hk => by rw [hflips k (by simpa using List.of_mem_filter hk)]
  rw [hmap]
  cases hm : f.main with
  | false =>
    have hnone : (hotkeys.filter fun k => s.Flips f k) = [] := by
      simp [flips_iff, hm]
    rw [hnone]
    simp [frame, skillNotices, hm]
  | true =>
    have hfilter : (hotkeys.filter fun k => s.Flips f k) = hotkeys.filter (s.triggered f) := by
      refine List.filter_congr fun k _ => ?_
      simp [flips_iff, hm, triggered]
    rw [hfilter]
    set t : Form2State := { s with flags := s.afterClicks f, notifications := s.rendered f }
    have h := (foldl_press f t nodup_hotkeys).2.2
    obtain ⟨htoggled, hpressed⟩ := foldl_press_skill t f hotkeys
    have hframe : (s.frame f).notifications =
        (autoSkill { hotkeys.foldl (press f) t with last := f.down } f).notifications := by
      simp only [frame, hm, if_true]
      rfl
    rw [hframe, autoSkill_notifications, skillNotices, hm, Bool.true_and]
    dsimp only
    rw [h, htoggled, hpressed]
    rfl

theorem frame_last : (s.frame f).last = if f.main then f.down else s.last := by
  unfold frame
  cases f.main with
  | false => rfl
  | true => simp only [if_true, autoSkill_last]

end Form2State

/-! ## Runs -/

variable {flags : Flags} {notifications : List Notification}

theorem downBefore_concat (fs : List Form2Frame) (f : Form2Frame) (k : Hotkey) :
    downBefore (fs ++ [f]) k = f.down k := by
  simp [downBefore]

theorem frames_concat (fs : List Form2Frame) (f : Form2Frame) :
    frames flags notifications (fs ++ [f]) = (frames flags notifications fs).frame f :=
  List.foldl_concat ..

/-- The key states kept are those of the last frame of the main tab. -/
theorem frames_last (fs : List Form2Frame) :
    (frames flags notifications fs).last = downOnMain fs := by
  induction fs using List.reverseRecOn with
  | nil => rfl
  | append_singleton fs f ih =>
    rw [frames_concat, Form2State.frame_last, ih]
    funext k
    unfold downOnMain
    rw [List.filter_append]
    cases hm : f.main with
    | false => simp [hm]
    | true =>
      simp only [if_true, hm, List.filter_cons_of_pos, List.filter_nil]
      rw [downBefore_concat]

/-- Each press counts once exactly if every key that is down in a frame of the main tab was in the
same state in the frame before and in the last frame of the main tab. -/
theorem countsOnce_iff (flags : Flags) (notifications : List Notification)
    (fs : List Form2Frame) : CountsOnce flags notifications fs ↔
      ∀ pre f post, fs = pre ++ f :: post → f.main = true → ∀ k, f.down k = true →
        downBefore pre k = downOnMain pre k := by
  constructor
  · intro h pre f post hfs hm k hd
    have hflips := h.flips pre f post hfs k
    rw [Form2State.flips_iff, frames_last] at hflips
    simp only [hm, hd, true_and] at hflips
    rw [← Bool.not_eq_true, ← Bool.not_eq_true, not_iff_not] at hflips
    exact Bool.eq_iff_iff.mpr hflips.symm
  · intro h
    refine ⟨fun pre f post hfs k => ?_, fun pre f post _ => ?_⟩
    · rw [Form2State.flips_iff, frames_last]
      constructor
      · rintro ⟨hm, hd, hl⟩
        exact ⟨hm, hd, by rw [h pre f post hfs hm k hd, hl]⟩
      · rintro ⟨hm, hd, hl⟩
        exact ⟨hm, hd, by rw [← h pre f post hfs hm k hd, hl]⟩
    · rw [frames_concat]
      exact Form2State.frame_notifications _ f

/-- A frame with F9 down. -/
def holdF9 (main : Bool) : Form2Frame where
  main := main
  clicked _ := false
  down k := k = .f9
  renderTime := 0
  showTime _ := 0
  altZ := false
  skillClicked := false
  skillTime := 0

/-- F9 goes down on the other tab and is held: the main tab flips `vend` although the key was down
in the frame before. -/
theorem not_countsOnce_heldF9 :
    ¬ CountsOnce (fun _ => false) [] [holdF9 false, holdF9 true] ∧
      (frames (fun _ => false) [] [holdF9 false]).Flips (holdF9 true) .f9 ∧
      downBefore [holdF9 false] .f9 = true := by
  have hflips : (frames (fun _ => false) [] [holdF9 false]).Flips (holdF9 true) .f9 := by
    rw [Form2State.flips_iff, frames_last]
    decide
  refine ⟨fun h => ?_, hflips, rfl⟩
  obtain ⟨-, -, hup⟩ := (h.flips [holdF9 false] (holdF9 true) [] rfl .f9).mp hflips
  cases hup

end Bossran
