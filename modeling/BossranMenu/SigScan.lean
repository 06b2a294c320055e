import BossranMenu.AutoScript
import Mathlib.Order.Bounds.Basic

/-!
# What `SigScan` finds and what it reads (`AutoScript.h`)

* `findsFirst_iff`: over a loaded module `SigScan` is the search for the first match, except at the
  last offset where the pattern fits: the loop stops one short of it.
* `sigScanRun`: the two loops of `SigScan` with the addresses that they dereference and the number
  of offsets that they try. Its result is `sigScan` (`sigScanRun_result`).
* `staysInside_iff`: when the loops stay inside the module. The bound `size - patternLength` wraps
  if the pattern is the longer of the two; only a match can then stop the loop in time.
-/

namespace Bossran

open Memory

/-- The first `n` positions of the pattern match at offset `i` of the image at `base`. -/
def MatchesAt (m : AddressSpace) (base : DWORD) (pattern : List BYTE) (mask : String) (n i : Nat) :
    Prop :=
  ∀ j < n, mask.toList.getD j '\x00' = '?' ∨
    pattern.getD j 0 = m.bytes (base + BitVec.ofNat 32 (i + j))

instance (m : AddressSpace) (base : DWORD) (pattern : List BYTE) (mask : String) (n i : Nat) :
    Decidable (MatchesAt m base pattern mask n i) :=
  inferInstanceAs (Decidable (∀ j < n, _ ∨ _))

/-! ## The first match -/

theorem window_iff_matchesAt {m : AddressSpace} {base : DWORD} {pattern : List BYTE}
    {mask : String} {i : Nat} :
    Window m.bytes (base + BitVec.ofNat 32 i) (maskedPattern pattern mask) ↔
      MatchesAt m base pattern mask mask.toList.length i := by
  rw [window_maskedPattern]
  simp only [MatchesAt, add_ofNat_add]

/-- The offsets of an image of `n` bytes at which the pattern fits and matches. -/
def matchOffsets (m : AddressSpace) (hModule : GameModule) (pattern : List BYTE) (mask : String) :
    Set Nat :=
  {i | i + mask.toList.length ≤ hModule.size.toNat ∧
    MatchesAt m hModule.base pattern mask mask.toList.length i}

/-- `SigScan` is the search for the first match in the image. -/
def FindsFirst (m : AddressSpace) (hModule : GameModule) (pattern : List BYTE) (mask : String) :
    Prop :=
  let found := sigScan m (getModuleInfo (some hModule)) pattern mask
  (∀ i, IsLeast (matchOffsets m hModule pattern mask) i →
    found = hModule.base + BitVec.ofNat 32 i) ∧
  (found = 0 ↔ matchOffsets m hModule pattern mask = ∅)

/-- An address inside a loaded module is not 0. -/
theorem GameModule.add_ne_zero (hModule : GameModule) {i : Nat} (hi : i < hModule.size.toNat) :
    hModule.base + BitVec.ofNat 32 i ≠ 0 := by
  have hpos := hModule.base_pos
  have hfits := hModule.fits
  intro h
  have h0 := congrArg BitVec.toNat h
  rw [BitVec.toNat_add, BitVec.toNat_ofNat, Nat.mod_eq_of_lt (show i < 2 ^ 32 by omega),
    Nat.mod_eq_of_lt (by omega)] at h0
  simp at h0
  omega

section FindsFirst

variable {m : AddressSpace} {hModule : GameModule} {pattern : List BYTE} {mask : String}

/-- A match that the loop reaches: the first one is found. -/
theorem sigScan_of_match (hle : mask.toList.length ≤ hModule.size.toNat) {i : Nat}
    (hi : i < hModule.size.toNat - mask.toList.length)
    (hm : MatchesAt m hModule.base pattern mask mask.toList.length i) :
    ∃ j, j < hModule.size.toNat - mask.toList.length ∧
      IsLeast (matchOffsets m hModule pattern mask) j ∧
      sigScan m (getModuleInfo (some hModule)) pattern mask =
        hModule.base + BitVec.ofNat 32 j := by
  have hsize := hModule.size.isLt
  obtain ⟨j, hji, hj⟩ := firstMatch_of_window (n := hModule.size.toNat - mask.toList.length) hi
    (window_iff_matchesAt.mpr hm)
  obtain ⟨-, hw, hmin⟩ := firstMatch_eq_some.mp hj
  refine ⟨j, by omega, ⟨⟨by omega, window_iff_matchesAt.mp hw⟩, ?_⟩, ?_⟩
  · rintro k ⟨-, hk⟩
    by_contra hkj
    exact hmin k (by omega) (window_iff_matchesAt.mpr hk)
  · rw [sigScan_eq _ _ _ (by omega), scanBound_of_le hle]
    simp only [getModuleInfo, hj]

/-- Without a match that the loop reaches, nothing is found. -/
theorem sigScan_of_no_match (hle : mask.toList.length ≤ hModule.size.toNat)
    (hm : ∀ i < hModule.size.toNat - mask.toList.length,
      ¬ MatchesAt m hModule.base pattern mask mask.toList.length i) :
    sigScan m (getModuleInfo (some hModule)) pattern mask = 0 := by
  have hsize := hModule.size.isLt
  have hf : firstMatch m.bytes hModule.base (hModule.size.toNat - mask.toList.length)
      (maskedPattern pattern mask) = none :=
    firstMatch_eq_none.mpr fun i hi hw => hm i hi (window_iff_matchesAt.mp hw)
  rw [sigScan_eq _ _ _ (by omega), scanBound_of_le hle]
  simp only [getModuleInfo, hf]

/-- `SigScan` finds the first match unless the last offset is the only one that matches. -/
theorem findsFirst_iff (hle : mask.toList.length ≤ hModule.size.toNat) :
    FindsFirst m hModule pattern mask ↔
      (MatchesAt m hModule.base pattern mask mask.toList.length
          (hModule.size.toNat - mask.toList.length) →
        ∃ i < hModule.size.toNat - mask.toList.length,
          MatchesAt m hModule.base pattern mask mask.toList.length i) := by
  have hlast : hModule.size.toNat - mask.toList.length + mask.toList.length ≤
      hModule.size.toNat := by omega
  by_cases hex : ∃ i < hModule.size.toNat - mask.toList.length,
      MatchesAt m hModule.base pattern mask mask.toList.length i
  · obtain ⟨i, hi, hm⟩ := hex
    obtain ⟨j, hj, hleast, hr⟩ := sigScan_of_match hle hi hm
    refine iff_of_true ⟨fun k hk => ?_, ?_⟩ fun _ => ⟨i, hi, hm⟩
    · rw [hr, hleast.unique hk]
    · refine iff_of_false ?_ (Set.nonempty_iff_ne_empty.mp ⟨j, hleast.1⟩)
      rw [hr]
      exact hModule.add_ne_zero (by omega)
  · have hr := sigScan_of_no_match hle fun i hi hm => hex ⟨i, hi, hm⟩
    constructor
    · intro h hm
      have hempty := h.2.mp hr
      exact absurd (show _ ∈ matchOffsets m hModule pattern mask from ⟨hlast, hm⟩)
        (by rw [hempty]; exact Set.notMem_empty _)
    · intro h
      have hempty : matchOffsets m hModule pattern mask = ∅ := by
        refine Set.eq_empty_of_forall_notMem fun i hi => ?_
        rcases Nat.lt_or_ge i (hModule.size.toNat - mask.toList.length) with hlt | hge
        · exact hex ⟨i, hlt, hi.2⟩
        · obtain rfl : i = hModule.size.toNat - mask.toList.length := by
            have := hi.1
            omega
          exact hex (h hi.2)
      refine ⟨fun i hi => ?_, iff_of_true hr hempty⟩
      exact absurd hi.1 (by rw [hempty]; exact Set.notMem_empty _)

end FindsFirst

/-- An image of two bytes, `90 55`. -/
def twoByteImage : AddressSpace :=
  ⟨store (fun _ => 0) 0x00400000 [0x90, 0x55], fun _ => PAGE_EXECUTE_READWRITE⟩

def twoByteModule : GameModule := ⟨0x00400000, 2, defaultBase_pos, by decide⟩

/-- The first byte of the image is found. -/
theorem findsFirst_iff_twoByte :
    "x".toList.length ≤ twoByteModule.size.toNat ∧
      FindsFirst twoByteImage twoByteModule [0x90] "x" := by
  refine ⟨by decide, (findsFirst_iff (by decide)).mpr ?_⟩
  decide +kernel

/-- The second byte is the only match of its pattern, and is missed. -/
theorem not_findsFirst_lastByte : ¬ FindsFirst twoByteImage twoByteModule [0x55] "x" := by
  intro h
  have hr : sigScan twoByteImage (getModuleInfo (some twoByteModule)) [0x55] "x" = 0 := by
    decide +kernel
  have hm : (1 : Nat) ∈ matchOffsets twoByteImage twoByteModule [0x55] "x" := by
    refine ⟨by decide, ?_⟩
    decide +kernel
  rw [h.2.mp hr] at hm
  exact hm

/-! ## The addresses read -/

/-- A run of the loops of `SigScan`. -/
structure ScanRun where
  result : DWORD
  /-- The addresses dereferenced in the module, in order. -/
  reads : List DWORD
  /-- How often the body of the outer loop ran. -/
  iterations : Nat

/-- The inner loop at `a`: `found`, and what it read. The byte of a wildcard is not read, since
`||` stops at the `?`. -/
def scanInner (m : AddressSpace) (pattern : List BYTE) (mask : String) (patternLength : DWORD)
    (a : DWORD) : Bool × List DWORD :=
  (List.range patternLength.toNat).foldl (fun (found, reads) j =>
    if mask.toList.getD j '\x00' == '?' then (found && true, reads)
    else (found && pattern.getD j 0 == m.bytes (a + BitVec.ofNat 32 j),
      reads ++ [a + BitVec.ofNat 32 j])) (true, [])

/-- The outer loop from offset `i` on, `k` offsets before its bound. -/
def scanOuter (m : AddressSpace) (base : DWORD) (pattern : List BYTE) (mask : String)
    (patternLength : DWORD) (i : Nat) : Nat → ScanRun
  | 0 => ⟨0, [], 0⟩
  | k + 1 =>
    let (found, reads) := scanInner m pattern mask patternLength (base + BitVec.ofNat 32 i)
    if found then ⟨base + BitVec.ofNat 32 i, reads, 1⟩
    else
      let rest := scanOuter m base pattern mask patternLength (i + 1) k
      ⟨rest.result, reads ++ rest.reads, rest.iterations + 1⟩

/-- `strlen` of the mask, as a `DWORD`. -/
def patternLengthOf (mask : String) : DWORD := BitVec.ofNat 32 mask.toList.length

/-- `SigScan` again, with its reads. -/
def sigScanRun (m : AddressSpace) (mInfo : ModuleInfo) (pattern : List BYTE) (mask : String) :
    ScanRun :=
  let base := mInfo.lpBaseOfDll
  let size := mInfo.SizeOfImage
  let patternLength := patternLengthOf mask
  scanOuter m base pattern mask patternLength 0 (size - patternLength).toNat

section Runs

variable {m : AddressSpace} {base : DWORD} {pattern : List BYTE} {mask : String}
  {patternLength : DWORD}

/-- The positions before `n` that the mask fixes. -/
def literals (mask : String) (n : Nat) : List Nat :=
  (List.range n).filter fun j => mask.toList.getD j '\x00' != '?'

theorem mem_literals {n j : Nat} :
    j ∈ literals mask n ↔ j < n ∧ mask.toList.getD j '\x00' ≠ '?' := by
  simp [literals]

/-- The inner loop after `n` positions. -/
theorem scanInner_eq (a : DWORD) :
    scanInner m pattern mask patternLength a =
      ((List.range patternLength.toNat).all fun j => mask.toList.getD j '\x00' == '?' ||
          pattern.getD j 0 == m.bytes (a + BitVec.ofNat 32 j),
        (literals mask patternLength.toNat).map fun j => a + BitVec.ofNat 32 j) := by
  unfold scanInner literals
  generalize patternLength.toNat = n
  induction n with
  | zero => rfl
  | succ n ih =>
    rw [List.range_succ, List.foldl_append, ih]
    cases hq : mask.toList.getD n '\x00' == '?' <;>
      simp [-List.getD_eq_getElem?_getD, -beq_eq_false_iff_ne, -beq_iff_eq, bne, hq]

theorem scanInner_found {i : Nat} :
    (scanInner m pattern mask patternLength (base + BitVec.ofNat 32 i)).1 = true ↔
      MatchesAt m base pattern mask patternLength.toNat i := by
  rw [scanInner_eq, List.all_eq_true]
  simp only [MatchesAt, List.mem_range, Bool.or_eq_true, beq_iff_eq, add_ofNat_add]

theorem scanOuter_of_found {i : Nat}
    (h : (scanInner m pattern mask patternLength (base + BitVec.ofNat 32 i)).1 = true) (k : Nat) :
    scanOuter m base pattern mask patternLength i (k + 1) =
      ⟨base + BitVec.ofNat 32 i,
        (scanInner m pattern mask patternLength (base + BitVec.ofNat 32 i)).2, 1⟩ := by
  rw [scanOuter]
  simp only [h, if_true]

theorem scanOuter_of_not_found {i : Nat}
    (h : ¬ (scanInner m pattern mask patternLength (base + BitVec.ofNat 32 i)).1 = true)
    (k : Nat) :
    scanOuter m base pattern mask patternLength i (k + 1) =
      let rest := scanOuter m base pattern mask patternLength (i + 1) k
      ⟨rest.result,
        (scanInner m pattern mask patternLength (base + BitVec.ofNat 32 i)).2 ++ rest.reads,
        rest.iterations + 1⟩ := by
  rw [scanOuter]
  simp only [if_neg h]

/-- The outer loop returns what `SigScan` does from offset `i` on. -/
theorem scanOuter_result (i k : Nat) :
    (scanOuter m base pattern mask patternLength i k).result =
      match (List.range' i k).find? fun i =>
        (scanInner m pattern mask patternLength (base + BitVec.ofNat 32 i)).1 with
      | some i => base + BitVec.ofNat 32 i
      | none => 0 := by
  induction k generalizing i with
  | zero => rfl
  | succ k ih =>
    rw [List.range'_succ, List.find?_cons]
    by_cases h : (scanInner m pattern mask patternLength (base + BitVec.ofNat 32 i)).1
    · rw [scanOuter_of_found h, h]
    · rw [scanOuter_of_not_found h, Bool.eq_false_iff.mpr h]
      exact ih (i + 1)

theorem sigScanRun_result (mInfo : ModuleInfo) :
    (sigScanRun m mInfo pattern mask).result = sigScan m mInfo pattern mask := by
  refine (scanOuter_result 0 _).trans ?_
  simp only [scanInner_eq]
  exact List.range_eq_range' ▸ rfl

/-- The outer loop reads the literal positions at every offset that it tries. -/
theorem mem_scanOuter_reads {x : DWORD} (i k : Nat) :
    x ∈ (scanOuter m base pattern mask patternLength i k).reads ↔
      ∃ q < (scanOuter m base pattern mask patternLength i k).iterations,
        ∃ j ∈ literals mask patternLength.toNat, x = base + BitVec.ofNat 32 (i + q + j) := by
  have hinner : ∀ i,
      x ∈ (scanInner m pattern mask patternLength (base + BitVec.ofNat 32 i)).2 ↔
      ∃ j ∈ literals mask patternLength.toNat, x = base + BitVec.ofNat 32 (i + j) := by
    intro i
    rw [scanInner_eq, List.mem_map]
    simp only [add_ofNat_add, eq_comm]
  induction k generalizing i with
  | zero => simp [scanOuter]
  | succ k ih =>
    by_cases hf : (scanInner m pattern mask patternLength (base + BitVec.ofNat 32 i)).1
    · simp only [scanOuter_of_found hf, Nat.lt_one_iff, exists_eq_left, Nat.add_zero]
      exact hinner i
    · simp only [scanOuter_of_not_found hf, List.mem_append]
      refine (or_congr (hinner i) (ih (i + 1))).trans ⟨?_, ?_⟩
      · rintro (h | ⟨q, hq, h⟩)
        · exact ⟨0, by omega, h⟩
        · refine ⟨q + 1, by omega, ?_⟩
          rwa [show i + (q + 1) = i + 1 + q by omega]
      · rintro ⟨q, hq, h⟩
        cases q with
        | zero => exact .inl h
        | succ q =>
          refine .inr ⟨q, by omega, ?_⟩
          rwa [show i + 1 + q = i + (q + 1) by omega]

/-- The outer loop ends with the first match, or at its bound. -/
theorem scanOuter_iterations (i k : Nat) :
    let run := scanOuter m base pattern mask patternLength i k
    (∃ q < k, run.iterations = q + 1 ∧
      MatchesAt m base pattern mask patternLength.toNat (i + q) ∧
      ∀ p < q, ¬ MatchesAt m base pattern mask patternLength.toNat (i + p)) ∨
    (run.iterations = k ∧
      ∀ p < k, ¬ MatchesAt m base pattern mask patternLength.toNat (i + p)) := by
  induction k generalizing i with
  | zero => exact .inr ⟨rfl, fun p hp => absurd hp (Nat.not_lt_zero p)⟩
  | succ k ih =>
    intro run
    have hrest : ∀ {n}, (¬ MatchesAt m base pattern mask patternLength.toNat i) →
        (∀ p < n, ¬ MatchesAt m base pattern mask patternLength.toNat (i + 1 + p)) →
        ∀ p < n + 1, ¬ MatchesAt m base pattern mask patternLength.toNat (i + p) := by
      intro n h0 h p hp
      cases p with
      | zero => exact h0
      | succ p =>
        rw [show i + (p + 1) = i + 1 + p by omega]
        exact h p (by omega)
    by_cases hf : (scanInner m pattern mask patternLength (base + BitVec.ofNat 32 i)).1
    · refine .inl ⟨0, by omega, ?_, scanInner_found.mp hf, fun p hp => by omega⟩
      simp [run, scanOuter_of_found hf]
    · have hrun : run.iterations =
          (scanOuter m base pattern mask patternLength (i + 1) k).iterations + 1 := by
        simp [run, scanOuter_of_not_found hf]
      rw [scanInner_found] at hf
      rw [hrun]
      rcases ih (i + 1) with ⟨q, hq, hit, hm, hmin⟩ | ⟨hit, hno⟩
      · refine .inl ⟨q + 1, by omega, by omega, ?_, hrest hf hmin⟩
        rwa [show i + (q + 1) = i + 1 + q by omega]
      · exact .inr ⟨by omega, hrest hf hno⟩

/-- An offset below `2 ^ 32` is in the region of a module exactly if it is below its size. -/
theorem offset_mem_region {mInfo : ModuleInfo} {k : Nat} (hk : k < 2 ^ 32) :
    mInfo.lpBaseOfDll + BitVec.ofNat 32 k ∈
        (⟨mInfo.lpBaseOfDll, mInfo.SizeOfImage.toNat⟩ : Region 32) ↔
      k < mInfo.SizeOfImage.toNat := by
  rw [Region.mem_iff, offset_add _ hk]

/-- Every read is in the module's region, and there are at most `SizeOfImage` iterations. -/
def ScanRun.Inside (run : ScanRun) (mInfo : ModuleInfo) : Prop :=
  (∀ x ∈ run.reads, x ∈ (⟨mInfo.lpBaseOfDll, mInfo.SizeOfImage.toNat⟩ : Region 32)) ∧
    run.iterations ≤ mInfo.SizeOfImage.toNat

/-- Offsets whose literal positions all lie below the size are read inside. -/
theorem scanOuter_inside {mInfo : ModuleInfo} {k t : Nat}
    (ht : (scanOuter m mInfo.lpBaseOfDll pattern mask patternLength 0 k).iterations ≤ t)
    (hsize : t ≤ mInfo.SizeOfImage.toNat)
    (hlit : ∀ q < t, ∀ j ∈ literals mask patternLength.toNat,
      q + j < mInfo.SizeOfImage.toNat) :
    (scanOuter m mInfo.lpBaseOfDll pattern mask patternLength 0 k).Inside mInfo := by
  refine ⟨fun x hx => ?_, by omega⟩
  obtain ⟨q, hq, j, hj, rfl⟩ := (mem_scanOuter_reads 0 k).mp hx
  rw [Nat.zero_add]
  have hqj := hlit q (by omega) j hj
  have := mInfo.SizeOfImage.isLt
  exact (offset_mem_region (by omega)).mpr hqj

/-- A run that reads inside has each literal position below the size at each offset it tried. -/
theorem literal_lt_of_inside {mInfo : ModuleInfo} {k : Nat}
    (h : (scanOuter m mInfo.lpBaseOfDll pattern mask patternLength 0 k).Inside mInfo) {j : Nat}
    (hj : j ∈ literals mask patternLength.toNat) {q : Nat}
    (hq : q < (scanOuter m mInfo.lpBaseOfDll pattern mask patternLength 0 k).iterations) :
    q + j < mInfo.SizeOfImage.toNat := by
  have hsize := mInfo.SizeOfImage.isLt
  have hread : q + j < 2 ^ 32 → q + j < mInfo.SizeOfImage.toNat := fun hlt =>
    (offset_mem_region hlt).mp
      (h.1 _ ((mem_scanOuter_reads 0 k).mpr ⟨q, hq, j, hj, by rw [Nat.zero_add]⟩))
  -- The offset moves by one at a time, so it cannot jump over the end of the address space.
  induction q with
  | zero =>
    have hjn := (mem_literals.mp hj).1
    have := patternLength.isLt
    exact hread (by omega)
  | succ q ih =>
    have hprev : q + j < mInfo.SizeOfImage.toNat := by
      refine ih (by omega) fun hlt => (offset_mem_region hlt).mp
        (h.1 _ ((mem_scanOuter_reads 0 k).mpr ⟨q, by omega, j, hj, by rw [Nat.zero_add]⟩))
    exact hread (by omega)

/-- When the outer loop stays inside, for a bound that is `size - patternLength` in 32 bits. -/
theorem scanOuter_inside_iff (mInfo : ModuleInfo) {k : Nat}
    (hk : k = (2 ^ 32 - patternLength.toNat + mInfo.SizeOfImage.toNat) % 2 ^ 32) :
    (scanOuter m mInfo.lpBaseOfDll pattern mask patternLength 0 k).Inside mInfo ↔
      patternLength.toNat ≤ mInfo.SizeOfImage.toNat ∨
        ∃ i < mInfo.SizeOfImage.toNat,
          MatchesAt m mInfo.lpBaseOfDll pattern mask patternLength.toNat i ∧
          ∀ j ∈ literals mask patternLength.toNat, i + j < mInfo.SizeOfImage.toNat := by
  have hsize := mInfo.SizeOfImage.isLt
  have hn := patternLength.isLt
  have hshort : patternLength.toNat ≤ mInfo.SizeOfImage.toNat →
      k = mInfo.SizeOfImage.toNat - patternLength.toNat := by omega
  have hlong : mInfo.SizeOfImage.toNat < patternLength.toNat → mInfo.SizeOfImage.toNat < k := by
    omega
  have hit := @scanOuter_iterations m mInfo.lpBaseOfDll pattern mask patternLength 0 k
  simp only [Nat.zero_add] at hit
  by_cases hle : patternLength.toNat ≤ mInfo.SizeOfImage.toNat
  · have hbound := hshort hle
    have htried :
        (scanOuter m mInfo.lpBaseOfDll pattern mask patternLength 0 k).iterations ≤ k := by
      rcases hit with ⟨q, hq, hit, -, -⟩ | ⟨hit, -⟩ <;> omega
    clear hit
    refine iff_of_true (scanOuter_inside htried (by omega) fun q hq j hj => ?_) (.inl hle)
    have hjn := (mem_literals.mp hj).1
    omega
  · have hbound := hlong (Nat.lt_of_not_le hle)
    constructor
    · intro h
      have hle' := h.2
      rcases hit with ⟨q, hq, hit, hm, -⟩ | ⟨hit, -⟩
      · exact .inr ⟨q, by omega, hm, fun j hj => literal_lt_of_inside h hj (by omega)⟩
      · omega
    · rintro (h | ⟨i, hi, hm, hlit⟩)
      · exact absurd h hle
      · rcases hit with ⟨q, hq, hit, -, hmin⟩ | ⟨-, hno⟩
        · have hqi : q ≤ i := by
            by_contra hlt
            exact hmin i (by omega) hm
          refine scanOuter_inside (Nat.le_of_eq hit) (by omega) fun p hp j hj => ?_
          have := hlit j hj
          omega
        · exact absurd hm (hno i (by omega))

end Runs

theorem getModuleInfo_fits (hModule : Option GameModule) :
    (getModuleInfo hModule).lpBaseOfDll.toNat + (getModuleInfo hModule).SizeOfImage.toNat ≤
      2 ^ 32 := by
  cases hModule with
  | none => decide
  | some hModule => exact hModule.fits

/-- Every address that a run of `SigScan` dereferences is in `[base, base + size)`, and the outer
loop makes at most `size` iterations. -/
def StaysInside (m : AddressSpace) (hModule : Option GameModule) (pattern : List BYTE)
    (mask : String) : Prop :=
  let mInfo := getModuleInfo hModule
  let run := sigScanRun m mInfo pattern mask
  (∀ x ∈ run.reads, mInfo.lpBaseOfDll.toNat ≤ x.toNat ∧
    x.toNat < mInfo.lpBaseOfDll.toNat + mInfo.SizeOfImage.toNat) ∧
  run.iterations ≤ mInfo.SizeOfImage.toNat

/-- `SigScan` stays inside the module exactly if the pattern is no longer than the module, or
matches at some offset of it with all its literal positions below the size. -/
theorem staysInside_iff (m : AddressSpace) (hModule : Option GameModule) (pattern : List BYTE)
    (mask : String) :
    StaysInside m hModule pattern mask ↔
      (patternLengthOf mask).toNat ≤ (getModuleInfo hModule).SizeOfImage.toNat ∨
        ∃ i < (getModuleInfo hModule).SizeOfImage.toNat,
          MatchesAt m (getModuleInfo hModule).lpBaseOfDll pattern mask
            (patternLengthOf mask).toNat i ∧
          ∀ j ∈ literals mask (patternLengthOf mask).toNat,
            i + j < (getModuleInfo hModule).SizeOfImage.toNat := by
  rw [← scanOuter_inside_iff _ (BitVec.toNat_sub ..)]
  simp only [StaysInside, ScanRun.Inside, Region.mem_iff_toNat (getModuleInfo_fits hModule),
    sigScanRun]

/-- The module is not loaded: the loop starts all the same. -/
theorem not_staysInside_notLoaded : ¬ StaysInside twoByteImage none [0x55] "x" := by
  intro h
  have hit := h.2
  rcases @scanOuter_iterations twoByteImage 0 [0x55] "x" 1 0 (0xFFFFFFFF : DWORD).toNat with
    ⟨q, -, hit', -⟩ | ⟨hit', -⟩
  · exact absurd (hit'.symm.trans_le hit) (by simp [getModuleInfo])
  · exact absurd (hit'.symm.trans_le hit) (by decide)

end Bossran
