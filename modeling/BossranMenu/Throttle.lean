import BossranMenu.AutoSkill
import BossranMenu.Lib.Machine

/-!
# The throttle of the auto skill (`Form2` in `main.cpp`)

`Form2` updates the skill record at most every 100 ms. It sees the time through `GetTickCount`,
which starts again at 0 after `2 ^ 32` ms. `throttle` is the machine of the frames that reach the
update block; its state also has the true times, which the code does not know.

* `ticks_sub`: a difference of two readings is the true time between them, below one turn.
* `ThrottleInv`: the true time of the stored reading, and how far the last reading is from it.
* `throttle_updates_iff`: in every run a frame updates exactly if more than 100 ms have passed.
-/

namespace Bossran

open Memory Transition

/-- `GetTickCount` at a true time in milliseconds. -/
def getTickCount (time : Nat) : DWORD := BitVec.ofNat 32 time

/-- A frame that reaches the update block. -/
structure ThrottleFrame where
  /-- The true time of the reading in the test. -/
  test : Nat
  /-- The true time of the reading that an update stores. -/
  store : Nat
  tick : Tick

structure Throttle where
  mem : AddressSpace
  lastUpdate : DWORD
  /-- The true time of the reading in `lastUpdate`. -/
  storedAt : Nat
  /-- The true times of the readings that `lastUpdate` held before, the latest first. -/
  storedBefore : List Nat
  /-- The true time of the last reading. -/
  lastReading : Nat
  /-- The updates so far. -/
  executed : List Tick

namespace Throttle

/-- The test of the update block. -/
def Updates (s : Throttle) (f : ThrottleFrame) : Prop :=
  getTickCount f.test - s.lastUpdate > 100

instance (s : Throttle) (f : ThrottleFrame) : Decidable (s.Updates f) :=
  inferInstanceAs (Decidable (_ > _))

/-- The update block. -/
def step (s : Throttle) (f : ThrottleFrame) : Throttle :=
  if s.Updates f then
    { mem := f.tick.exec s.mem
      lastUpdate := getTickCount f.store
      storedAt := f.store
      storedBefore := s.storedAt :: s.storedBefore
      lastReading := f.store
      executed := s.executed ++ [f.tick] }
  else { s with lastReading := f.test }

/-- The readings of the frame come in order, with less than `2 ^ 32 - 200` ms between two of
them. -/
structure InTime (s : Throttle) (f : ThrottleFrame) : Prop where
  test_ge : s.lastReading ≤ f.test
  test_lt : f.test < s.lastReading + (2 ^ 32 - 200)
  store_ge : s.Updates f → f.test ≤ f.store
  store_lt : s.Updates f → f.store < f.test + (2 ^ 32 - 200)

end Throttle

/-- The frames on memory `m`, from the initialisation of `lastUpdate` on. -/
def throttle (m : AddressSpace) : Machine Throttle ThrottleFrame where
  init s := ∃ time, s = ⟨m, getTickCount time, time, [], time, []⟩
  step s f := some (s.step f)

/-! ## Readings -/

/-- The difference of two readings is the true time between them, below one turn of the counter. -/
theorem ticks_sub {t t' : Nat} (hle : t ≤ t') (hlt : t' < t + 2 ^ 32) :
    (getTickCount t' - getTickCount t).toNat = t' - t := by
  obtain ⟨k, rfl⟩ := Nat.exists_eq_add_of_le hle
  rw [getTickCount, getTickCount, BitVec.ofNat_add, offset_add _ (by omega)]
  omega

/-! ## Runs -/

/-- The stored reading is the one of its true time; the last reading is not later than it by more
than 100 ms. -/
structure ThrottleInv (m : AddressSpace) (s : Throttle) : Prop where
  lastUpdate : s.lastUpdate = getTickCount s.storedAt
  stored_le : s.storedAt ≤ s.lastReading
  reading_le : s.lastReading ≤ s.storedAt + 100
  apart : (s.storedAt :: s.storedBefore).IsChain fun t t' => t' + 100 < t
  mem : s.mem = updates m s.executed

variable {m : AddressSpace} {s : Throttle} {tr : List ThrottleFrame} {f : ThrottleFrame}

namespace Throttle

/-- The test of the block sees the true time since the stored reading. -/
theorem updates_iff (h : ThrottleInv m s) (hf : s.InTime f) :
    s.Updates f ↔ s.storedAt + 100 < f.test := by
  have hge := h.stored_le.trans hf.test_ge
  have hlt : f.test < s.storedAt + 2 ^ 32 := by
    have h1 := hf.test_lt
    have h2 := h.reading_le
    omega
  have hsub := ticks_sub hge hlt
  rw [Updates, h.lastUpdate, gt_iff_lt, BitVec.lt_def, hsub]
  have h100 : (100 : DWORD).toNat = 100 := rfl
  rw [h100]
  omega

theorem step_inv (h : ThrottleInv m s) (hf : s.InTime f) : ThrottleInv m (s.step f) := by
  have hiff := updates_iff h hf
  have hle := h.stored_le.trans hf.test_ge
  unfold step
  split
  · rename_i hu
    have hlater : s.storedAt + 100 < f.store := (hiff.mp hu).trans_le (hf.store_ge hu)
    exact {
      lastUpdate := rfl
      stored_le := Nat.le_refl _
      reading_le := Nat.le_add_right _ _
      apart := h.apart.cons_cons hlater
      mem := by rw [updates_snoc, ← h.mem] }
  · rename_i hu
    have hnot := fun hlt => hu (hiff.mpr hlt)
    exact {
      lastUpdate := h.lastUpdate
      stored_le := hle
      reading_le := Nat.not_lt.mp hnot
      apart := h.apart
      mem := h.mem }

end Throttle

theorem inv_throttle (h : (throttle m).RunWhere Throttle.InTime tr s) : ThrottleInv m s := by
  refine h.invariant (I := fun _ s => ThrottleInv m s) (fun s hi => ?_)
    fun tr s f s' _ ih hf hs => ?_
  · obtain ⟨time, rfl⟩ := hi
    exact ⟨rfl, Nat.le_refl _, Nat.le_add_right _ _, List.IsChain.singleton _, rfl⟩
  · cases hs
    exact Throttle.step_inv ih hf

/-- In every run, over any number of turns of the counter: the next frame updates exactly if more
than 100 ms of true time have passed between the reading in `lastUpdate` and its first reading, any
two stored readings are more than 100 ms apart, and memory is as the updates have left it. -/
theorem throttle_updates_iff (h : (throttle m).RunWhere Throttle.InTime tr s) (hf : s.InTime f) :
    (s.Updates f ↔ s.storedAt + 100 < f.test) ∧
    s.lastUpdate = getTickCount s.storedAt ∧
    (s.storedAt :: s.storedBefore).IsChain (fun t t' => t' + 100 < t) ∧
    s.mem = updates m s.executed ∧
    (s.step f).executed = s.executed ++ if s.storedAt + 100 < f.test then [f.tick] else [] := by
  have hinv := inv_throttle h
  have hiff := Throttle.updates_iff hinv hf
  refine ⟨hiff, hinv.lastUpdate, hinv.apart, hinv.mem, ?_⟩
  unfold Throttle.step
  by_cases hu : s.Updates f
  · simp [hu, hiff.mp hu]
  · have hnot := fun hlt => hu (hiff.mpr hlt)
    rw [if_neg hu, if_neg hnot, List.append_nil]

/-- A frame with readings so many milliseconds before the first turn of the counter. -/
def frameBefore (test store : Nat) : ThrottleFrame := ⟨2 ^ 32 - test, 2 ^ 32 - store, sampleTick⟩

/-- A frame behind the turn. -/
def wrapFrame : ThrottleFrame := ⟨2 ^ 32 + 100, 2 ^ 32 + 101, sampleTick⟩

/-- A skipped frame, one that updates and another skipped one come before the turn, and the frame
behind it updates. -/
theorem throttle_updates_iff_wrap : ∃ s, (throttle ⟨fun _ => 0, fun _ => 4⟩).RunWhere
      Throttle.InTime [frameBefore 950 950, frameBefore 850 849, frameBefore 800 800] s ∧
    s.executed = [sampleTick] ∧ getTickCount wrapFrame.test = 100 ∧ s.Updates wrapFrame := by
  let m : AddressSpace := ⟨fun _ => 0, fun _ => 4⟩
  let s₀ : Throttle := ⟨m, getTickCount (2 ^ 32 - 1000), 2 ^ 32 - 1000, [], 2 ^ 32 - 1000, []⟩
  let s₁ : Throttle := { s₀ with lastReading := 2 ^ 32 - 950 }
  let s₂ : Throttle := ⟨sampleTick.exec m, getTickCount (2 ^ 32 - 849), 2 ^ 32 - 849,
    [2 ^ 32 - 1000], 2 ^ 32 - 849, [sampleTick]⟩
  let s₃ : Throttle := { s₂ with lastReading := 2 ^ 32 - 800 }
  have hs₁ : s₀.step (frameBefore 950 950) = s₁ := if_neg (by decide)
  have hs₂ : s₁.step (frameBefore 850 849) = s₂ := if_pos (by decide)
  have hs₃ : s₂.step (frameBefore 800 800) = s₃ := if_neg (by decide)
  have h₀ : (throttle m).RunWhere Throttle.InTime [] s₀ := .init ⟨_, rfl⟩
  have h₁ := h₀.step _ ⟨by decide, by decide, fun _ => by decide, fun _ => by decide⟩
    (congrArg some hs₁)
  have h₂ := h₁.step _ ⟨by decide, by decide, fun _ => by decide, fun _ => by decide⟩
    (congrArg some hs₂)
  have h₃ := h₂.step _ ⟨by decide, by decide, fun _ => by decide, fun _ => by decide⟩
    (congrArg some hs₃)
  have hf : s₃.InTime wrapFrame := ⟨by decide, by decide, fun _ => by decide, fun _ => by decide⟩
  exact ⟨s₃, h₃, rfl, by decide, (throttle_updates_iff h₃ hf).1.mpr (by decide)⟩

end Bossran
