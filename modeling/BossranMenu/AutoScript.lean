import BossranMenu.AddressSpace

/-!
# Signature scan and jump patch (`AutoScript.h`)

* `getModuleInfo`: the base and size of the game module, all zero if it is not loaded.
* `sigScan`: `SigScan`, with its 32-bit loop bound `size - patternLength`. The loop over offsets is
  a search in the offsets below the bound, in increasing order; `sigScan_eq` states it with the
  library's `firstMatch`.
* `script`: the five-byte near jump over a block of `NOP`s. `script_bytes` collects its three
  overlapping writes into one.
-/

namespace Bossran

open Memory

/-- The part of `MODULEINFO` that `SigScan` reads. -/
structure ModuleInfo where
  lpBaseOfDll : DWORD
  SizeOfImage : DWORD
  deriving DecidableEq

/-- A loaded module: it does not contain address 0 and ends inside the address space. -/
structure GameModule where
  base : DWORD
  size : DWORD
  base_pos : 0 < base.toNat
  fits : base.toNat + size.toNat ≤ 2 ^ 32

/-- Where an executable is loaded by default. -/
theorem defaultBase_pos : 0 < (0x00400000 : DWORD).toNat := by decide

/-- `GetModuleInfo`, given what `GetModuleHandle` finds under the name. -/
def getModuleInfo : Option GameModule → ModuleInfo
  | none => ⟨0, 0⟩
  | some hModule => ⟨hModule.base, hModule.size⟩

/-- `SigScan`, given the result of its `GetModuleInfo` call. -/
def sigScan (m : AddressSpace) (mInfo : ModuleInfo) (pattern : List BYTE) (mask : String) : DWORD :=
  let base := mInfo.lpBaseOfDll
  let size := mInfo.SizeOfImage
  let patternLength := BitVec.ofNat 32 mask.toList.length
  let found (i : Nat) : Bool := (List.range patternLength.toNat).all fun j =>
    mask.toList.getD j '\x00' == '?' ||
      pattern.getD j 0 == m.bytes (base + BitVec.ofNat 32 i + BitVec.ofNat 32 j)
  match (List.range (size - patternLength).toNat).find? found with
  | some i => base + BitVec.ofNat 32 i
  | none => 0

/-- `script`: whether it patched, and the memory after it. -/
def script (m : AddressSpace) (address jmpFunc : DWORD) (len : Int) : AddressSpace × Bool :=
  if len < 5 then (m, false)
  else
    let (m₁, curProtection) := virtualProtect m address len.toNat PAGE_EXECUTE_READWRITE
    let b₁ := store m₁.bytes address (List.replicate len.toNat 0x90)
    let relativeAddress := (jmpFunc - address) - 5
    let b₂ := store b₁ address [0xE9]
    let b₃ := store b₂ (address + 1) (wordBytes relativeAddress)
    ((virtualProtect { m₁ with bytes := b₃ } address len.toNat curProtection).1, true)

/-! ## The pattern of a scan -/

/-- The cells that a pattern and its mask ask for. -/
def maskedPattern (pattern : List BYTE) (mask : String) : List (Option BYTE) :=
  (List.range mask.toList.length).map fun j =>
    if mask.toList.getD j '\x00' = '?' then none else some (pattern.getD j 0)

@[simp] theorem length_maskedPattern (pattern : List BYTE) (mask : String) :
    (maskedPattern pattern mask).length = mask.toList.length := by
  simp [maskedPattern]

/-- The number of offsets that `SigScan` tries: `size - patternLength` in 32 bits. -/
def scanBound (mInfo : ModuleInfo) (n : Nat) : Nat := (mInfo.SizeOfImage - BitVec.ofNat 32 n).toNat

theorem scanBound_of_le {mInfo : ModuleInfo} {n : Nat} (h : n ≤ mInfo.SizeOfImage.toNat) :
    scanBound mInfo n = mInfo.SizeOfImage.toNat - n := by
  have := mInfo.SizeOfImage.isLt
  have hn : (BitVec.ofNat 32 n).toNat = n := by
    rw [BitVec.toNat_ofNat, Nat.mod_eq_of_lt (by omega)]
  rw [scanBound, BitVec.toNat_sub_of_le (by rw [BitVec.le_def, hn]; exact h), hn]

/-- The inner loop of `SigScan` tests a window. -/
theorem window_maskedPattern {m : DWORD → BYTE} {a : DWORD} {pattern : List BYTE} {mask : String} :
    Window m a (maskedPattern pattern mask) ↔
      ∀ j < mask.toList.length, mask.toList.getD j '\x00' = '?' ∨
        pattern.getD j 0 = m (a + BitVec.ofNat 32 j) := by
  constructor
  · intro h j hj
    by_cases hq : mask.toList.getD j '\x00' = '?'
    · exact .inl hq
    · refine .inr (h j (by simpa using hj) _ ?_).symm
      simp only [maskedPattern, List.getElem_map, List.getElem_range, if_neg hq]
      rfl
  · intro h j hj b hb
    rw [length_maskedPattern] at hj
    simp only [maskedPattern, List.getElem_map, List.getElem_range] at hb
    rcases h j hj with hq | hp
    · rw [if_pos hq] at hb
      cases hb
    · split at hb
      · cases hb
      · simp only [Option.mem_def, Option.some.injEq] at hb
        rw [← hp, hb]

/-- `SigScan` is the first match below the loop bound, 0 without one. -/
theorem sigScan_eq (m : AddressSpace) (mInfo : ModuleInfo) (pattern : List BYTE) {mask : String}
    (hmask : mask.toList.length < 2 ^ 32) :
    sigScan m mInfo pattern mask =
      match firstMatch m.bytes mInfo.lpBaseOfDll (scanBound mInfo mask.toList.length)
        (maskedPattern pattern mask) with
      | some i => mInfo.lpBaseOfDll + BitVec.ofNat 32 i
      | none => 0 := by
  have hlen : (BitVec.ofNat 32 mask.toList.length).toNat = mask.toList.length := by
    rw [BitVec.toNat_ofNat, Nat.mod_eq_of_lt hmask]
  unfold sigScan firstMatch scanBound
  simp only [hlen]
  congr 2
  funext i
  rw [Bool.eq_iff_iff, List.all_eq_true, decide_eq_true_iff, window_maskedPattern]
  simp only [List.mem_range, Bool.or_eq_true, beq_iff_eq]

/-! ## The jump -/

/-- The bytes that `script` leaves at its site: `E9`, the displacement, then `NOP`s. -/
def jumpBytes (address jmpFunc : DWORD) (len : Nat) : List BYTE :=
  0xE9 :: wordBytes (jmpFunc - address - 5) ++ List.replicate (len - 5) 0x90

theorem length_jumpBytes (a f : DWORD) {len : Nat} (h : 5 ≤ len) :
    (jumpBytes a f len).length = len := by
  simp [jumpBytes]
  omega

/-- The three writes of `script` amount to one. -/
theorem script_bytes (m : AddressSpace) (a f : DWORD) {len : Nat} (h : 5 ≤ len)
    (hl : len ≤ 2 ^ 32) :
    (script m a f len).1.bytes = store m.bytes a (jumpBytes a f len) := by
  have hjl := length_jumpBytes a f h
  have hlen : ¬ (len : Int) < 5 := by omega
  funext x
  simp only [script, if_neg hlen, Int.toNat_natCast, virtualProtect_bytes]
  rw [store_apply _ _ _ (by simp), store_apply _ _ _ (by simp),
    store_apply _ _ _ (by simpa using hl), store_apply _ _ _ (by rw [hjl]; exact hl)]
  simp only [length_wordBytes, List.length_singleton, List.length_replicate, hjl]
  -- The offset from `a + 1` is one less than the one from `a`, or out of the displacement's range.
  by_cases hxa : x = a
  · subst hxa
    simp [jumpBytes, show 0 < len by omega]
  · have hs := offset_succ hxa
    generalize (x - (a + 1)).toNat = k at hs
    simp only [hs, jumpBytes]
    by_cases hk : k < 4
    · rw [dif_pos hk, dif_pos (by omega)]
      rw [List.getElem_append_left (by simp; omega)]
      simp
    · rw [dif_neg hk, dif_neg (by omega)]
      split
      · rw [List.getElem_append_right (by simp; omega)]
        simp
      · rfl

end Bossran
