import BossranMenu.AddressSpace
import Mathlib.Algebra.Order.Field.Rat
import Mathlib.Algebra.Order.Ring.Abs
import Mathlib.Tactic.Linarith
import Mathlib.Tactic.Ring

/-!
# The opacity of the tabs (`elements.cpp`)

`elements::tab` keeps an opacity for each tab and moves it towards a target by interpolation. The
factor depends on the time since the last frame. Numbers are exact.

* `imLerp_sub`: a step multiplies the distance to the target by `1 - t`.
* `staysValid_iff`: the opacities stay in `[0, 0.8]` and none moves away from its target exactly if,
  in every call that moves one, the frame took at most a second or the target is already reached.
-/

namespace Bossran

/-- What a call of `elements::tab` meets. -/
structure TabCall where
  id : DWORD
  /-- `window->SkipItems` -/
  skipItems : Bool
  /-- `ItemAdd` -/
  itemAdd : Bool
  /-- The tab is the selected one. -/
  boolean : Bool
  hovered : Bool
  pressed : Bool
  /-- `GetIO().DeltaTime`, in seconds. -/
  deltaTime : { d : ℚ // 0 ≤ d }

/-- `ImLerp` -/
def imLerp (a b t : ℚ) : ℚ := a + (b - a) * t

/-- The opacities kept so far. -/
abbrev Anim := DWORD → Option ℚ

/-- The opacity of a tab; a new one starts at 0. -/
def Anim.element_opacity (anim : Anim) (id : DWORD) : ℚ := (anim id).getD 0

namespace TabCall

/-- The value that the opacity moves to. -/
def target (c : TabCall) : ℚ := if c.boolean then 8 / 10 else if c.hovered then 6 / 10 else 4 / 10

/-- The factor of the interpolation. -/
def factor (c : TabCall) : ℚ := 7 / 100 * (1 - c.deltaTime)

/-- The call gets as far as the interpolation. -/
def updates (c : TabCall) : Bool := !c.skipItems && c.itemAdd

/-- `elements::tab`. -/
def tab (anim : Anim) (c : TabCall) : Anim × Bool :=
  if c.skipItems then (anim, false)
  else if !c.itemAdd then (anim, false)
  else
    let element_opacity := imLerp (anim.element_opacity c.id) c.target c.factor
    (Function.update anim c.id (some element_opacity), c.pressed)

end TabCall

/-- Call after call, from the empty map on. -/
def tabs (cs : List TabCall) : Anim := cs.foldl (fun anim c => (c.tab anim).1) fun _ => none

/-- The opacities are in range after every call, and no call moves one away from its target. -/
structure StaysValid (cs : List TabCall) : Prop where
  inRange : ∀ pre, pre <+: cs → ∀ id, 0 ≤ (tabs pre).element_opacity id ∧
    (tabs pre).element_opacity id ≤ 8 / 10
  approaches : ∀ pre c post, cs = pre ++ c :: post → c.updates = true →
    |(tabs (pre ++ [c])).element_opacity c.id - c.target| ≤
      |(tabs pre).element_opacity c.id - c.target|

/-! ## A step -/

/-- A step multiplies the distance to the target by `1 - t`. -/
theorem imLerp_sub (a b t : ℚ) : imLerp a b t - b = (1 - t) * (a - b) := by
  rw [imLerp]
  ring

theorem imLerp_mem {a b t lo hi : ℚ} (ht0 : 0 ≤ t) (ht1 : t ≤ 1) (ha : lo ≤ a ∧ a ≤ hi)
    (hb : lo ≤ b ∧ b ≤ hi) : lo ≤ imLerp a b t ∧ imLerp a b t ≤ hi := by
  have heq : imLerp a b t = (1 - t) * a + t * b := by
    rw [imLerp]
    ring
  rw [heq]
  constructor
  · nlinarith
  · nlinarith

/-- A step moves away from its target exactly if its factor is negative. -/
theorem imLerp_approaches {a b t : ℚ} (ht : t ≤ 1) :
    |imLerp a b t - b| ≤ |a - b| ↔ 0 ≤ t ∨ a = b := by
  rw [imLerp_sub, abs_mul, abs_of_nonneg (by linarith)]
  constructor
  · intro h
    by_contra hn
    push Not at hn
    obtain ⟨hneg, hne⟩ := hn
    have hpos : 0 < |a - b| := abs_pos.mpr (sub_ne_zero.mpr hne)
    nlinarith
  · rintro (h0 | rfl)
    · have hpos : 0 ≤ |a - b| := abs_nonneg _
      nlinarith
    · simp

namespace TabCall

variable (c : TabCall)

theorem target_mem : 0 ≤ c.target ∧ c.target ≤ 8 / 10 := by
  unfold target
  split_ifs <;> norm_num

theorem factor_le : c.factor ≤ 1 := by
  have h := c.deltaTime.2
  unfold factor
  linarith

theorem factor_nonneg : 0 ≤ c.factor ↔ c.deltaTime.1 ≤ 1 := by
  unfold factor
  constructor <;> intro h <;> linarith

theorem tab_eq (anim : Anim) : (c.tab anim).1 =
    if c.updates then
      Function.update anim c.id (some (imLerp (anim.element_opacity c.id) c.target c.factor))
    else anim := by
  unfold tab updates
  cases c.skipItems <;> cases c.itemAdd <;> rfl

theorem tab_self (anim : Anim) (h : c.updates = true) : Anim.element_opacity (c.tab anim).1 c.id =
    imLerp (anim.element_opacity c.id) c.target c.factor := by
  rw [tab_eq, if_pos h, Anim.element_opacity, Function.update_self, Option.getD_some]

theorem tab_of_ne (anim : Anim) {id : DWORD} (h : id ≠ c.id ∨ c.updates = false) :
    Anim.element_opacity (c.tab anim).1 id = anim.element_opacity id := by
  rw [tab_eq]
  cases hu : c.updates with
  | false => rfl
  | true =>
    have hne : id ≠ c.id := h.resolve_right (by simp [hu])
    rw [if_pos rfl, Anim.element_opacity, Function.update_of_ne hne, Anim.element_opacity]

end TabCall

/-! ## Runs -/

theorem tabs_concat (cs : List TabCall) (c : TabCall) : tabs (cs ++ [c]) = (c.tab (tabs cs)).1 :=
  List.foldl_concat ..

/-- The frame took at most a second, or the opacity is at its target. -/
def Calm (cs : List TabCall) : Prop :=
  ∀ pre c post, cs = pre ++ c :: post → c.updates = true →
    c.deltaTime.1 ≤ 1 ∨ (tabs pre).element_opacity c.id = c.target

theorem tabs_inRange {cs : List TabCall} (h : Calm cs) (id : DWORD) :
    0 ≤ (tabs cs).element_opacity id ∧ (tabs cs).element_opacity id ≤ 8 / 10 := by
  induction cs using List.reverseRecOn generalizing id with
  | nil => norm_num [tabs, Anim.element_opacity]
  | append_singleton cs c ih =>
    have hcs : Calm cs := fun pre d post heq => h pre d (post ++ [c]) (by simp [heq])
    rw [tabs_concat]
    by_cases hid : id ≠ c.id ∨ c.updates = false
    · rw [c.tab_of_ne _ hid]
      exact ih hcs id
    · push Not at hid
      obtain ⟨rfl, hu⟩ := hid
      rw [Bool.ne_false_iff] at hu
      rw [c.tab_self _ hu]
      rcases h cs c [] rfl hu with hd | heq
      · exact imLerp_mem (c.factor_nonneg.mpr hd) c.factor_le (ih hcs c.id) c.target_mem
      · have hstay : imLerp c.target c.target c.factor = c.target := by
          rw [imLerp, sub_self, zero_mul, add_zero]
        rw [heq, hstay]
        exact c.target_mem

/-- The opacities stay in range and approach their targets exactly if every call that moves one
comes within a second of the last frame or finds it at its target. -/
theorem staysValid_iff (cs : List TabCall) : StaysValid cs ↔ Calm cs := by
  have hcall : ∀ (pre : List TabCall) (c : TabCall), c.updates = true →
      (|(tabs (pre ++ [c])).element_opacity c.id - c.target| ≤
        |(tabs pre).element_opacity c.id - c.target| ↔
        c.deltaTime.1 ≤ 1 ∨ (tabs pre).element_opacity c.id = c.target) := by
    intro pre c hu
    rw [tabs_concat, c.tab_self _ hu, imLerp_approaches c.factor_le, c.factor_nonneg]
  constructor
  · intro h pre c post heq hu
    exact (hcall pre c hu).mp (h.approaches pre c post heq hu)
  · intro h
    constructor
    · rintro pre ⟨rest, rfl⟩ id
      exact tabs_inRange (fun p c post heq => h p c (post ++ rest) (by simp [heq])) id
    · intro pre c post heq hu
      exact (hcall pre c hu).mpr (h pre c post heq hu)

/-- A frame that took two seconds, the tab neither selected nor hovered. -/
def slowFrame : TabCall := ⟨0, false, true, false, false, false, ⟨2, by norm_num⟩⟩

/-- It makes the opacity negative. -/
theorem not_staysValid_slowFrame :
    ¬ StaysValid [slowFrame] ∧ (tabs [slowFrame]).element_opacity 0 = -(28 / 1000) := by
  have hopacity : (tabs [slowFrame]).element_opacity 0 = -(28 / 1000) := by
    have hself := slowFrame.tab_self (fun _ => none) rfl
    refine hself.trans ?_
    norm_num [Anim.element_opacity, imLerp, TabCall.target, TabCall.factor, slowFrame]
  refine ⟨fun h => ?_, hopacity⟩
  have hpos := (h.inRange _ List.prefix_rfl 0).1
  rw [hopacity] at hpos
  norm_num at hpos

end Bossran
