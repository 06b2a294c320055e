import BossranMenu.Lib.Bounce
import Mathlib.Algebra.Order.Field.Basic
import Mathlib.Algebra.Order.Field.Rat
import Mathlib.Algebra.Order.Ring.Abs
import Mathlib.Data.List.Forall2
import Mathlib.Tactic.Linarith
import Mathlib.Tactic.NormNum
import Mathlib.Tactic.Ring

/-!
# The particles of the background (`ParticleNetwork` in `main.cpp`)

Each frame moves every particle by a fifth of its velocity and turns a component of the velocity
round if the particle is at an edge of the window or beyond it. Numbers are exact.

* `initParticles_starts`: where particles are made, and how fast they are.
* `point_update`: along each axis, a particle is a point that bounces between two ends.
* `particles_confined`: so no particle is ever more than a tenth outside the window, and none
  changes its speed along an axis.
-/

namespace Bossran

open Bounce

structure ImVec2 where
  x : ℚ
  y : ℚ

structure Particle where
  position : ImVec2
  velocity : ImVec2
  size : ℚ

structure ParticleNetwork where
  windowSize : ImVec2
  particles : List Particle

/-- `RAND_MAX` -/
def randMax : Nat := 0x7FFF

/-- What the calls of `std::rand` return, in order. -/
abbrev Rand := Nat → Fin (randMax + 1)

/-- Call `k` of `std::rand`, divided by `RAND_MAX`. -/
def Rand.unit (rand : Rand) (k : Nat) : ℚ := (rand k).val / randMax

/-- The particles of a new network. -/
def initParticles (numParticles : Int) (windowSize : ImVec2) (rand : Rand) : List Particle :=
  (List.range numParticles.toNat).map fun i =>
    let x := rand.unit (5 * i) * windowSize.x
    let y := rand.unit (5 * i + 1) * windowSize.y
    let vx := (rand.unit (5 * i + 2) - 1 / 2) * 1
    let vy := (rand.unit (5 * i + 3) - 1 / 2) * 1
    let size := 2 + rand.unit (5 * i + 4) * 2
    ⟨⟨x, y⟩, ⟨vx, vy⟩, size⟩

def speedFactor : ℚ := 2 / 10

/-- The body of the loop of `updateParticles`. -/
def Particle.update (windowSize : ImVec2) (p : Particle) : Particle :=
  let position : ImVec2 :=
    ⟨p.position.x + p.velocity.x * speedFactor, p.position.y + p.velocity.y * speedFactor⟩
  let velocity : ImVec2 :=
    ⟨if position.x ≤ 0 ∨ position.x ≥ windowSize.x then p.velocity.x * -1 else p.velocity.x,
      if position.y ≤ 0 ∨ position.y ≥ windowSize.y then p.velocity.y * -1 else p.velocity.y⟩
  { p with position, velocity }

namespace ParticleNetwork

def updateParticles (net : ParticleNetwork) : ParticleNetwork :=
  { net with particles := net.particles.map (Particle.update net.windowSize) }

end ParticleNetwork

/-- A particle in the closed window, no component of its velocity above `0.5` either way. -/
structure Starts (windowSize : ImVec2) (p : Particle) : Prop where
  x : 0 ≤ p.position.x ∧ p.position.x ≤ windowSize.x
  y : 0 ≤ p.position.y ∧ p.position.y ≤ windowSize.y
  vx : |p.velocity.x| ≤ 1 / 2
  vy : |p.velocity.y| ≤ 1 / 2

/-- The particle `q` is in the window or at most a tenth outside it, and as fast along each axis as
`p`. -/
structure Confined (windowSize : ImVec2) (p q : Particle) : Prop where
  x : -(1 / 10) ≤ q.position.x ∧ q.position.x ≤ windowSize.x + 1 / 10
  y : -(1 / 10) ≤ q.position.y ∧ q.position.y ≤ windowSize.y + 1 / 10
  vx : |q.velocity.x| = |p.velocity.x|
  vy : |q.velocity.y| = |p.velocity.y|

/-! ## New particles -/

variable {windowSize : ImVec2}

theorem Rand.unit_mem (rand : Rand) (k : Nat) : 0 ≤ rand.unit k ∧ rand.unit k ≤ 1 := by
  have hpos : (0 : ℚ) < randMax := by norm_num [randMax]
  have hle : ((rand k).val : ℚ) ≤ randMax := by exact_mod_cast Nat.le_of_lt_succ (rand k).isLt
  exact ⟨div_nonneg (Nat.cast_nonneg _) hpos.le, (div_le_one hpos).mpr hle⟩

theorem initParticles_starts (hx : 0 ≤ windowSize.x) (hy : 0 ≤ windowSize.y) (numParticles : Int)
    (rand : Rand) : ∀ p ∈ initParticles numParticles windowSize rand, Starts windowSize p := by
  intro p hp
  obtain ⟨i, -, rfl⟩ := List.mem_map.mp hp
  have hunit := rand.unit_mem
  have hposition : ∀ k w : ℚ, 0 ≤ w → 0 ≤ k ∧ k ≤ 1 → 0 ≤ k * w ∧ k * w ≤ w := fun k w hw hk =>
    ⟨mul_nonneg hk.1 hw, mul_le_of_le_one_left hw hk.2⟩
  have hvelocity : ∀ k : ℚ, 0 ≤ k ∧ k ≤ 1 → |(k - 1 / 2) * 1| ≤ 1 / 2 := by
    intro k hk
    rw [mul_one, abs_le]
    constructor <;> linarith [hk.1, hk.2]
  exact {
    x := hposition _ _ hx (hunit _)
    y := hposition _ _ hy (hunit _)
    vx := hvelocity _ (hunit _)
    vy := hvelocity _ (hunit _) }

theorem length_initParticles (numParticles : Int) (windowSize : ImVec2) (rand : Rand) :
    (initParticles numParticles windowSize rand).length = numParticles.toNat := by
  simp [initParticles]

/-! ## The two axes -/

inductive Axis where
  | x | y

def ImVec2.coord (v : ImVec2) : Axis → ℚ
  | .x => v.x
  | .y => v.y

/-- A particle along an axis. -/
def Particle.point (a : Axis) (p : Particle) : Point ℚ :=
  ⟨p.position.coord a, p.velocity.coord a * speedFactor⟩

/-- Turning the velocity round turns the step round. -/
theorem turn_mul (c : Prop) [Decidable c] (v : ℚ) :
    (if c then v * -1 else v) * speedFactor =
      if c then -(v * speedFactor) else v * speedFactor := by
  split
  · ring
  · rfl

/-- An update moves the particle along each axis by itself. -/
theorem point_update (a : Axis) : Function.Semiconj (Particle.point a) (Particle.update windowSize)
    (Point.next 0 (windowSize.coord a)) := by
  intro p
  cases a with
  | x => exact congrArg (Point.mk _) (turn_mul _ p.velocity.x)
  | y => exact congrArg (Point.mk _) (turn_mul _ p.velocity.y)

theorem abs_point_step (a : Axis) (p : Particle) :
    |(p.point a).step| = |p.velocity.coord a| * speedFactor := by
  have hfactor : (0 : ℚ) ≤ speedFactor := by norm_num [speedFactor]
  rw [Particle.point, abs_mul, abs_of_nonneg hfactor]

/-- Along an axis, the position stays within a tenth of the window and the speed stays as it is. -/
theorem coord_iterate (a : Axis) {p : Particle}
    (h : 0 ≤ p.position.coord a ∧ p.position.coord a ≤ windowSize.coord a)
    (hv : |p.velocity.coord a| ≤ 1 / 2) (n : Nat) :
    let q := (Particle.update windowSize)^[n] p
    (-(1 / 10) ≤ q.position.coord a ∧ q.position.coord a ≤ windowSize.coord a + 1 / 10) ∧
      |q.velocity.coord a| = |p.velocity.coord a| := by
  intro q
  have hpoint : q.point a = (Point.next 0 (windowSize.coord a))^[n] (p.point a) :=
    (point_update a).iterate_right n p
  have hspeed : |q.velocity.coord a| = |p.velocity.coord a| := by
    have hstep := abs_step_iterate 0 (windowSize.coord a) (p.point a) n
    rw [← hpoint, abs_point_step, abs_point_step] at hstep
    exact mul_right_cancel₀ (show speedFactor ≠ 0 by norm_num [speedFactor]) hstep
  have hsmall : |(q.point a).step| ≤ 1 / 10 := by
    rw [abs_point_step, hspeed, speedFactor]
    linarith
  have hstart : Near 0 (windowSize.coord a) (p.point a) := .inl h
  have hnear := hstart.iterate n
  rw [← hpoint] at hnear
  obtain ⟨hlo, hhi⟩ := hnear.bounds
  have hpos : (q.point a).pos = q.position.coord a := rfl
  rw [hpos] at hlo hhi
  exact ⟨⟨by linarith, by linarith⟩, hspeed⟩

theorem confined_iterate {p : Particle} (h : Starts windowSize p) (n : Nat) :
    Confined windowSize p ((Particle.update windowSize)^[n] p) := by
  obtain ⟨hx, hvx⟩ := coord_iterate .x h.x h.vx n
  obtain ⟨hy, hvy⟩ := coord_iterate .y h.y h.vy n
  exact ⟨hx, hy, hvx, hvy⟩

/-! ## Runs -/

/-- The updates of a network are those of its particles. -/
theorem updateParticles_iterate (net : ParticleNetwork) (n : Nat) :
    ParticleNetwork.updateParticles^[n] net =
      { net with particles := net.particles.map (Particle.update net.windowSize)^[n] } := by
  induction n with
  | zero => simp
  | succ n ih =>
    rw [Function.iterate_succ_apply', ih, ParticleNetwork.updateParticles, List.map_map,
      ← Function.iterate_succ']

/-- A new network has as many particles as were asked for, in the closed window, with no component
of a velocity above `0.5`. From any such particles, those at an edge included, any number of updates
leaves each of them at most a tenth outside the window and at its speed along each axis. -/
theorem particles_confined (hx : 0 < windowSize.x) (hy : 0 < windowSize.y) :
    (∀ numParticles rand, (initParticles numParticles windowSize rand).length =
        numParticles.toNat ∧
      ∀ p ∈ initParticles numParticles windowSize rand, Starts windowSize p) ∧
    ∀ particles : List Particle, (∀ p ∈ particles, Starts windowSize p) → ∀ n : Nat,
      List.Forall₂ (Confined windowSize) particles
        (ParticleNetwork.updateParticles^[n] ⟨windowSize, particles⟩).particles := by
  refine ⟨fun numParticles rand => ⟨length_initParticles numParticles windowSize rand,
    initParticles_starts hx.le hy.le numParticles rand⟩, fun particles h n => ?_⟩
  rw [updateParticles_iterate]
  show List.Forall₂ (Confined windowSize) particles
    (particles.map (Particle.update windowSize)^[n])
  rw [List.forall₂_map_right_iff, List.forall₂_same]
  exact fun p hp => confined_iterate (h p hp) n

/-- A particle in a corner of the window, on its way out. -/
def corner : Particle := ⟨⟨0, 600⟩, ⟨-(1 / 2), 1 / 2⟩, 2⟩

/-- After three updates it is a tenth outside along both axes, which is as far as it can get. -/
theorem particles_confined_corner :
    ∃ q, (ParticleNetwork.updateParticles^[3] ⟨⟨800, 600⟩, [corner]⟩).particles = [q] ∧
      q.position = ⟨-(1 / 10), 600 + 1 / 10⟩ ∧ Confined ⟨800, 600⟩ corner q := by
  have hstarts : ∀ p ∈ [corner], Starts ⟨800, 600⟩ p := by
    intro p hp
    rw [List.mem_singleton.mp hp]
    constructor <;> norm_num [corner, abs_of_neg, abs_of_pos]
  have hx : (0 : ℚ) < (ImVec2.mk 800 600).x := by norm_num
  have hy : (0 : ℚ) < (ImVec2.mk 800 600).y := by norm_num
  have h := (particles_confined hx hy).2 [corner] hstarts 3
  have hupdate : (Particle.update ⟨800, 600⟩)^[3] corner =
      ⟨⟨-(1 / 10), 600 + 1 / 10⟩, ⟨1 / 2, -(1 / 2)⟩, 2⟩ := by
    norm_num [Particle.update, corner, speedFactor]
  rw [updateParticles_iterate] at h
  refine ⟨(Particle.update ⟨800, 600⟩)^[3] corner, ?_, ?_, ?_⟩
  · rw [updateParticles_iterate]
    rfl
  · rw [hupdate]
  · exact (List.forall₂_cons.mp h).1

end Bossran
