import BossranMenu.AddressSpace

/-!
# The periodic update of the auto skill (`main.cpp`, `Form2`)

Every 100 ms `Form2` writes the skill record at `0x0267aba8`, from the check box `isToggled`, the
skill bytes and the value of the input box.

* `tickWrites`: the stores of one update; `updates_mem` is a run of them.
* `updates_agree`: a byte that the last update covers ends up alike after any two runs.
* `updates_stale`: the upper bytes of the second field, which only the off branch writes, remember
  whether there was an update with the check box off.
* `skillHistoryIndependent_iff`: when two runs that end with the same update agree on the record.
-/

namespace Bossran

open Memory

def SKILLHEX : DWORD := 0x0267ABD4

/-- What an update reads. A vector has fewer than `2 ^ 31` bytes. -/
structure Tick where
  isToggled : Bool
  skillBytes : { bs : List BYTE // bs.length < 2 ^ 31 }
  value5 : DWORD

/-- One update. -/
def Tick.exec (m : AddressSpace) (t : Tick) : AddressSpace :=
  if t.isToggled then
    let m := if t.skillBytes.1 ≠ [] then writeBytes m SKILLHEX t.skillBytes.1 else m
    let m := writeBytes m 0x0267aba8 [1]
    let m := writeBytes m 0x0267abac [1]
    let m := writeBytes m 0x0267abb0 (wordBytes 100)
    let m := writeBytes m 0x0267abb8 (wordBytes 999)
    writeBytes m 0x0267abbc (wordBytes t.value5)
  else
    let m := writeBytes m 0x0267aba8 [0]
    let offValRest := wordBytes 0xFFFFFFFF
    let m := writeBytes m 0x0267abac offValRest
    let m := writeBytes m 0x0267abb0 offValRest
    let m := writeBytes m 0x0267abb8 offValRest
    writeBytes m 0x0267abbc offValRest

/-- Update after update. -/
def updates (m : AddressSpace) (ts : List Tick) : AddressSpace := ts.foldl Tick.exec m

theorem updates_snoc (m : AddressSpace) (ts : List Tick) (t : Tick) :
    updates m (ts ++ [t]) = t.exec (updates m ts) := by
  simp [updates]

/-- The 24 bytes of the record. -/
def skillRecord : Region 32 := ⟨0x0267aba8, 24⟩

/-! ## The stores of an update -/

def onWrites (value5 : DWORD) : List (Write 32 BYTE) :=
  [⟨0x0267aba8, [1]⟩, ⟨0x0267abac, [1]⟩, ⟨0x0267abb0, wordBytes 100⟩, ⟨0x0267abb8, wordBytes 999⟩,
    ⟨0x0267abbc, wordBytes value5⟩]

def offWrites : List (Write 32 BYTE) :=
  [⟨0x0267aba8, [0]⟩, ⟨0x0267abac, wordBytes 0xFFFFFFFF⟩, ⟨0x0267abb0, wordBytes 0xFFFFFFFF⟩,
    ⟨0x0267abb8, wordBytes 0xFFFFFFFF⟩, ⟨0x0267abbc, wordBytes 0xFFFFFFFF⟩]

def tickWrites (t : Tick) : List (Write 32 BYTE) :=
  if t.isToggled then ⟨SKILLHEX, t.skillBytes.1⟩ :: onWrites t.value5 else offWrites

theorem Tick.exec_bytes (m : AddressSpace) (t : Tick) :
    (t.exec m).bytes = writeAll m.bytes (tickWrites t) := by
  unfold Tick.exec tickWrites
  cases t.isToggled with
  | false => rfl
  | true =>
    by_cases hs : t.skillBytes.1 = []
    · simp [hs, onWrites, writeAll, store]
    · simp [hs, onWrites, writeAll]

theorem tickWrites_small (t : Tick) : ∀ e ∈ tickWrites t, e.data.length ≤ 2 ^ 32 := by
  have hskill := t.skillBytes.2
  intro e he
  unfold tickWrites at he
  split at he
  · rcases List.mem_cons.mp he with rfl | he
    · simp only
      omega
    · simp only [onWrites, List.mem_cons, List.not_mem_nil, or_false] at he
      rcases he with rfl | rfl | rfl | rfl | rfl <;> simp
  · simp only [offWrites, List.mem_cons, List.not_mem_nil, or_false] at he
    rcases he with rfl | rfl | rfl | rfl | rfl <;> simp

/-- The skill bytes do not reach around the address space to the record. -/
theorem notMem_skillBytes (t : Tick) {x : DWORD} (hx : x ∈ skillRecord) :
    x ∉ (⟨SKILLHEX, t.skillBytes.1.length⟩ : Region 32) := by
  have hskill := t.skillBytes.2
  have hfar : ∀ k < 24, 2 ^ 31 ≤ (skillRecord.base + BitVec.ofNat 32 k - SKILLHEX).toNat := by
    decide
  obtain ⟨k, hk, rfl⟩ := Region.mem_iff_exists.mp hx
  have := hfar k hk
  rw [Region.mem_iff]
  dsimp only
  omega

/-! ## The bytes of the record -/

/-- The bytes of the record that an update with the check box on writes. -/
def onRegions : List (Region 32) :=
  [⟨0x0267aba8, 1⟩, ⟨0x0267abac, 1⟩, ⟨0x0267abb0, 4⟩, ⟨0x0267abb8, 4⟩, ⟨0x0267abbc, 4⟩]

/-- The bytes that only an update with the check box off writes. -/
def staleRegion : Region 32 := ⟨0x0267abad, 3⟩

/-- The bytes that no update writes. -/
def unusedRegions : List (Region 32) := [⟨0x0267aba9, 3⟩, ⟨0x0267abb4, 4⟩]

/-- A store of an update whose region is not the one of the skill bytes. -/
theorem region_mem_of_mem_tickWrites {t : Tick} {e : Write 32 BYTE} (he : e ∈ tickWrites t) :
    e.region = ⟨SKILLHEX, t.skillBytes.1.length⟩ ∨
      (t.isToggled = true ∧ e.region ∈ onRegions) ∨
      t.isToggled = false ∧ e ∈ offWrites := by
  unfold tickWrites at he
  split at he
  · rename_i ht
    rcases List.mem_cons.mp he with rfl | he
    · exact .inl rfl
    · exact .inr (.inl ⟨ht, List.mem_map_of_mem (f := Write.region) he⟩)
  · rename_i ht
    exact .inr (.inr ⟨Bool.eq_false_iff.mpr ht, he⟩)

theorem skillRecord_cases {x : DWORD} (hx : x ∈ skillRecord) :
    (∃ r ∈ onRegions, x ∈ r) ∨ x ∈ staleRegion ∨ ∃ r ∈ unusedRegions, x ∈ r := by
  obtain ⟨k, hk, rfl⟩ := Region.mem_iff_exists.mp hx
  revert k
  decide

theorem staleRegion_record {x : DWORD} (hx : x ∈ staleRegion) : x ∈ skillRecord := by
  obtain ⟨k, hk, rfl⟩ := Region.mem_iff_exists.mp hx
  revert k
  decide

/-- The last update decides the bytes that it writes. -/
theorem updates_agree {m : AddressSpace} (A B : List Tick) {t : Tick} (ht : t.isToggled = true)
    {x : DWORD} (hx : ∃ r ∈ onRegions, x ∈ r) :
    (updates m (A ++ [t])).bytes x = (updates m (B ++ [t])).bytes x := by
  obtain ⟨r, hr, hxr⟩ := hx
  obtain ⟨e, he, rfl⟩ : ∃ e ∈ onWrites t.value5, e.region = r := List.mem_map.mp hr
  rw [updates_snoc, updates_snoc, Tick.exec_bytes, Tick.exec_bytes]
  refine writeAll_agree (tickWrites_small t) (.inr ⟨e, ?_, hxr⟩)
  rw [tickWrites, if_pos ht]
  exact List.mem_cons_of_mem _ he

/-- An update keeps the bytes of the record that it does not write. -/
theorem Tick.exec_frame {m : AddressSpace} {t : Tick} {x : DWORD} (hx : x ∈ skillRecord)
    (hon : ∀ r ∈ onRegions, x ∉ r)
    (hoff : t.isToggled = false → ∀ e ∈ offWrites, x ∉ e.region) :
    (t.exec m).bytes x = m.bytes x := by
  rw [Tick.exec_bytes, writeAll_frame (tickWrites_small t)]
  intro e he
  rcases region_mem_of_mem_tickWrites he with hr | ⟨-, hr⟩ | ⟨ht, he⟩
  · rw [hr]
    exact notMem_skillBytes t hx
  · exact hon _ hr
  · exact hoff ht e he

theorem updates_unused {m : AddressSpace} (ts : List Tick) {x : DWORD} (hx : x ∈ skillRecord)
    (hu : ∃ r ∈ unusedRegions, x ∈ r) : (updates m ts).bytes x = m.bytes x := by
  obtain ⟨r, hr, hxr⟩ := hu
  have hon : ∀ r ∈ unusedRegions, ∀ r' ∈ onRegions, r.Disjoint r' := by decide
  have hoff : ∀ r ∈ unusedRegions, ∀ e ∈ offWrites, r.Disjoint e.region := by decide
  induction ts using List.reverseRecOn with
  | nil => rfl
  | append_singleton ts t ih =>
    rw [updates_snoc, Tick.exec_frame hx (fun r' hr' => hon r hr r' hr' x hxr)
      (fun _ e he => hoff r hr e he x hxr), ih]

/-- The upper bytes of the second field are `FF` once the check box was off at an update. -/
theorem updates_stale {m : AddressSpace} (ts : List Tick) {x : DWORD} (hx : x ∈ staleRegion) :
    (updates m ts).bytes x = if ∃ t ∈ ts, t.isToggled = false then 0xFF else m.bytes x := by
  have hon : ∀ r ∈ onRegions, staleRegion.Disjoint r := by decide
  induction ts using List.reverseRecOn with
  | nil => rfl
  | append_singleton ts t ih =>
    rw [updates_snoc]
    cases ht : t.isToggled with
    | true =>
      rw [Tick.exec_frame (staleRegion_record hx) (fun r hr => hon r hr x hx)
        (fun h => by simp [ht] at h), ih]
      simp [ht]
    | false =>
      rw [if_pos ⟨t, by simp, ht⟩, Tick.exec_bytes, tickWrites, if_neg (by simp [ht])]
      refine writeAll_const (fun e he => ?_) ?_ (.inr ⟨⟨0x0267abac, wordBytes 0xFFFFFFFF⟩, ?_, ?_⟩)
      · exact tickWrites_small ⟨false, ⟨[], by simp⟩, 0⟩ e he
      · have hff : ∀ e ∈ offWrites, staleRegion.Disjoint e.region ∨ ∀ d ∈ e.data, d = 0xFF := by
          decide
        intro e he hxe
        exact (hff e he).resolve_left fun hd => hd x hx hxe
      · simp [offWrites]
      · exact Region.mem_of_add (a := 0x0267abac) (n := 1) (k := 3) hx

/-! ## Two runs -/

/-- Two runs that end with the update `t` leave the same record. -/
def SkillHistoryIndependent (m : AddressSpace) (A B : List Tick) (t : Tick) : Prop :=
  ∀ x ∈ skillRecord, (updates m (A ++ [t])).bytes x = (updates m (B ++ [t])).bytes x

/-- Two runs that end with the same update, the check box on, agree on the record exactly if both
or neither of them had the check box off before, or the upper bytes of the second field were `FF`
anyway. -/
theorem skillHistoryIndependent_iff (m : AddressSpace) (A B : List Tick) {t : Tick}
    (ht : t.isToggled = true) :
    SkillHistoryIndependent m A B t ↔
      ((∃ u ∈ A, u.isToggled = false) ↔ ∃ u ∈ B, u.isToggled = false) ∨
        ∀ x ∈ staleRegion, m.bytes x = 0xFF := by
  have hlast : ∀ ts : List Tick, (∃ u ∈ ts ++ [t], u.isToggled = false) ↔
      ∃ u ∈ ts, u.isToggled = false := by
    intro ts
    simp [ht]
  constructor
  · intro h
    by_contra hn
    push Not at hn
    obtain ⟨hAB, x, hx, hm⟩ := hn
    have hrec := h x (staleRegion_record hx)
    rw [updates_stale _ hx, updates_stale _ hx] at hrec
    simp only [hlast] at hrec
    rcases hAB with ⟨hA, hB⟩ | ⟨hA, hB⟩
    · rw [if_pos hA, if_neg (by simpa using hB)] at hrec
      exact hm hrec.symm
    · rw [if_neg (by simpa using hA), if_pos hB] at hrec
      exact hm hrec
  · intro h x hx
    rcases skillRecord_cases hx with hon | hst | hu
    · exact updates_agree A B ht hon
    · rw [updates_stale _ hst, updates_stale _ hst]
      simp only [hlast]
      rcases h with h | h
      · simp only [h]
      · rw [h x hst]
        split <;> split <;> rfl
    · rw [updates_unused _ hx hu, updates_unused _ hx hu]

/-- An update with the check box on, no skill bytes and the initial value. -/
def sampleTick : Tick := ⟨true, ⟨[], Nat.two_pow_pos 31⟩, 100⟩

/-- Two different runs, in both of which the check box was off for some time. -/
theorem skillHistoryIndependent_sample :
    SkillHistoryIndependent ⟨fun _ => 0, fun _ => 4⟩
      [sampleTick, { sampleTick with isToggled := false }, { sampleTick with value5 := 7 }]
      [{ sampleTick with isToggled := false }, { sampleTick with isToggled := false }]
      sampleTick :=
  (skillHistoryIndependent_iff _ _ _ rfl).mpr (.inl (by simp [sampleTick]))

/-- One update with the check box off leaves `FF` in the second field for good. -/
theorem not_skillHistoryIndependent_off :
    ¬ SkillHistoryIndependent ⟨fun _ => 0, fun _ => 4⟩ [{ sampleTick with isToggled := false }] []
      sampleTick := by
  intro h
  have hx := h 0x0267abad (by decide)
  rw [updates_stale _ (by decide), updates_stale _ (by decide)] at hx
  simp [sampleTick] at hx

end Bossran
