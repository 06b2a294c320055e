import BossranMenu.Scan.Caves

/-!
# What one patch does (`mem.h`, `AutoScript.h`)

* `script_jump`: `script` leaves a near jump to its target, `NOP`s behind it and the rest of the
  memory as it was; the return address that `ScriptCaving` computes is the first address that
  `script` did not overwrite.
* `patch_preserves_iff`: `WriteBytes`, `WriteNOPs` and `script` write exactly what they should, and
  leave the protections as they were exactly if every page they touch had the protection of the
  first one: `VirtualProtect` reports no other.
-/

namespace Bossran

open Memory

/-! ## The jump -/

/-- `m'` is `m` with a near jump to `f` over `len` bytes at `a`. -/
structure JumpWritten (m m' : DWORD → BYTE) (a f : DWORD) (len : Nat) : Prop where
  opcode : m' a = 0xE9
  decodes : X86.decode m' a = some (.jmp (readWord m' (a + 1)))
  target : a + 5 + readWord m' (a + 1) = f
  nops : ∀ k, 5 ≤ k → k < len → m' (a + BitVec.ofNat 32 k) = 0x90
  frame : ∀ x, x.toNat < a.toNat ∨ a.toNat + len ≤ x.toNat → m' x = m x

theorem jumpWritten_store (m : DWORD → BYTE) (a f : DWORD) {len : Nat} (h : 5 ≤ len)
    (hfit : a.toNat + len ≤ 2 ^ 32) :
    JumpWritten m (store m a (jumpBytes a f len)) a f len := by
  have hlen := length_jumpBytes a f h
  have hreads : Reads (store m a (jumpBytes a f len)) a (jumpBytes a f len) :=
    store_reads m a (by rw [hlen]; omega)
  have hsplit : jumpBytes a f len =
      (X86.Instr.jmp (f - a - 5)).encode ++ List.replicate (len - 5) 0x90 := rfl
  have hjmp : Reads (store m a (jumpBytes a f len)) a (X86.Instr.jmp (f - a - 5)).encode :=
    (reads_append.mp (hsplit ▸ hreads)).1
  have hdecode := X86.decode_of_reads hjmp
  have hrel : readWord (store m a (jumpBytes a f len)) (a + 1) = f - a - 5 :=
    (reads_append.mp hjmp).2.readWord
  constructor
  case opcode =>
    have := hjmp 0 (by simp [X86.Instr.encode])
    rwa [BitVec.add_zero] at this
  case decodes => rw [hdecode, hrel]
  case target =>
    rw [hrel]
    ring
  case nops =>
    intro k hk hkl
    rw [hreads k (by omega)]
    simp only [hsplit]
    rw [List.getElem_append_right (by simpa [X86.Instr.encode] using hk), List.getElem_replicate]
  case frame =>
    intro x hx
    refine store_of_notMem (by rw [hlen]; omega) ?_
    rw [hlen, Region.mem_iff_toNat hfit]
    omega

/-- `script` gives the byte at `x` a value that the memory before it does not influence. -/
def Overwritten (a f : DWORD) (len : Int) (x : DWORD) : Prop :=
  ∀ m m' : AddressSpace, (script m a f len).1.bytes x = (script m' a f len).1.bytes x

theorem overwritten_iff (a f x : DWORD) {len : Nat} (h : 5 ≤ len) (hl : len ≤ 2 ^ 32) :
    Overwritten a f len x ↔ x ∈ (⟨a, len⟩ : Region 32) := by
  have hlen := length_jumpBytes a f h
  unfold Overwritten
  simp only [script_bytes _ a f h hl]
  constructor
  · intro ho
    by_contra hx
    -- Two memories that differ everywhere.
    have hne := ho ⟨fun _ => 0, fun _ => 0⟩ ⟨fun _ => 1, fun _ => 0⟩
    rw [store_of_notMem (by rwa [hlen]) (by rwa [hlen]),
      store_of_notMem (by rwa [hlen]) (by rwa [hlen])] at hne
    exact absurd hne (show ¬ (0 : BYTE) = 1 by decide)
  · intro hx m m'
    exact store_of_mem (by rwa [hlen]) (by rwa [hlen])

/-- The return address that a hook computes is the first one that `script` did not overwrite. -/
theorem hook_returns {w : World} {caves : Cave → DWORD} {v : Site} {c : Cave} {len : Nat}
    (h : 5 ≤ len) (hl : len < 2 ^ 32) :
    (w.hook caves v c len).jmpback c = w.site v + BitVec.ofNat 32 len ∧
      IsLeast {k | ¬ Overwritten (w.site v) (caves c) len (w.site v + BitVec.ofNat 32 k)} len := by
  refine ⟨by cases c <;> rfl, ?_, fun k hk => ?_⟩
  · rw [Set.mem_ofPred_eq, overwritten_iff _ _ _ h (by omega), Region.mem_iff, offset_add _ hl]
    exact Nat.lt_irrefl len
  · rw [Set.mem_ofPred_eq, overwritten_iff _ _ _ h (by omega)] at hk
    by_contra hlt
    exact hk (Region.add_mem (r := ⟨w.site v, len⟩) (Nat.lt_of_not_le hlt))

/-- For every two addresses and every length, `script` leaves a jump that decodes to its target, and
a hook with it returns behind what was overwritten; a length below 5 leaves everything alone. -/
theorem script_jump (m : AddressSpace) (a f : DWORD) {len : Int} (hint : len < 2 ^ 31)
    (hfit : a.toNat + len ≤ 2 ^ 32) :
    (5 ≤ len →
      JumpWritten m.bytes (script m a f len).1.bytes a f len.toNat ∧
      (script m a f len).2 = true ∧
      ∀ (w : World) (caves : Cave → DWORD) (v : Site) (c : Cave), w.site v = a → caves c = f →
        (w.hook caves v c len.toNat).jmpback c = a + BitVec.ofInt 32 len ∧
        IsLeast {k : Nat | ¬ Overwritten a f len (a + BitVec.ofNat 32 k)} len.toNat) ∧
    (len < 5 → script m a f len = (m, false)) := by
  constructor
  · intro h5
    lift len to Nat using by omega with n
    simp only [Int.toNat_natCast]
    have hn : 5 ≤ n := by omega
    refine ⟨?_, ?_, ?_⟩
    · rw [script_bytes m a f hn (by omega)]
      exact jumpWritten_store m.bytes a f hn (by omega)
    · simp [script, show ¬ (n : Int) < 5 by omega]
    · rintro w caves v c rfl rfl
      exact hook_returns hn (by omega)
  · intro h
    simp [script, h]

/-- Code in front of read-only data. -/
def codeThenData : AddressSpace :=
  ⟨fun _ => 0, fun page => if page = 0x00400 then 0x20 else 0x02⟩

/-- A jump from the code up to the cave. -/
theorem script_jump_sample :
    JumpWritten codeThenData.bytes (script codeThenData 0x00400100 0x10001000 6).1.bytes
        0x00400100 0x10001000 6 ∧
      script codeThenData 0x00400100 0x10001000 4 = (codeThenData, false) :=
  ⟨((script_jump codeThenData 0x00400100 0x10001000 (by decide) (by decide)).1 (by decide)).1,
    (script_jump codeThenData 0x00400100 0x10001000 (by decide) (by decide)).2 (by decide)⟩

/-! ## Page protections -/

/-- `WriteNOPs`. -/
def writeNOPs (m : AddressSpace) (address : DWORD) (length : Nat) : AddressSpace :=
  writeBytes m address (List.replicate length 0x90)

/-- A call of one of the patching functions at some address. -/
inductive PatchCall where
  | WriteBytes (pbBytes : List BYTE)
  | WriteNOPs (length : Nat)
  /-- `len` is an `int`. -/
  | script (jmpFunc : DWORD) (len : BitVec 32)

def PatchCall.exec (m : AddressSpace) (address : DWORD) : PatchCall → AddressSpace
  | .WriteBytes pbBytes => writeBytes m address pbBytes
  | .WriteNOPs length => writeNOPs m address length
  | .script jmpFunc len => (Bossran.script m address jmpFunc len.toInt).1

/-- The bytes that the call is to leave at the address. -/
def PatchCall.intended (address : DWORD) : PatchCall → List BYTE
  | .WriteBytes pbBytes => pbBytes
  | .WriteNOPs length => List.replicate length 0x90
  | .script jmpFunc len => if len.toInt < 5 then [] else jumpBytes address jmpFunc len.toInt.toNat

/-- The call changes the intended bytes and no protection. -/
def PatchCall.Preserves (c : PatchCall) (m : AddressSpace) (address : DWORD) : Prop :=
  (c.exec m address).bytes = store m.bytes address (c.intended address) ∧
    (c.exec m address).protection = m.protection

/-- The `n` bytes from `a` lie on pages with the protection of the first of them. -/
def SameProtection (m : AddressSpace) (a : DWORD) (n : Nat) : Prop :=
  ∀ k < n, m.protection (pageOf (a + BitVec.ofNat 32 k)) = m.protection (pageOf a)

/-- Pages touched get the old protection of the first page, the others keep theirs. -/
theorem protect_restore {m m' : AddressSpace} {a : DWORD} {n : Nat} {new : DWORD}
    (h : m'.protection = (virtualProtect m a n new).1.protection) :
    (virtualProtect m' a n (virtualProtect m a n new).2).1.protection = fun page =>
      if ∃ k < n, pageOf (a + BitVec.ofNat 32 k) = page then m.protection (pageOf a)
      else m.protection page := by
  funext page
  simp only [virtualProtect, h]
  split <;> rfl

theorem protect_restore_iff {m m' : AddressSpace} {a : DWORD} {n : Nat} {new : DWORD}
    (h : m'.protection = (virtualProtect m a n new).1.protection) :
    (virtualProtect m' a n (virtualProtect m a n new).2).1.protection = m.protection ↔
      SameProtection m a n := by
  rw [protect_restore h]
  constructor
  · intro he k hk
    have := congrFun he (pageOf (a + BitVec.ofNat 32 k))
    rw [if_pos ⟨k, hk, rfl⟩] at this
    exact this.symm
  · intro hs
    funext page
    split
    · rename_i hp
      obtain ⟨k, hk, rfl⟩ := hp
      exact (hs k hk).symm
    · rfl

theorem writeBytes_protection_iff (m : AddressSpace) (a : DWORD) (bs : List BYTE) :
    (writeBytes m a bs).protection = m.protection ↔ SameProtection m a bs.length :=
  protect_restore_iff rfl

theorem script_protection_iff (m : AddressSpace) (a f : DWORD) {len : Int} (h : 5 ≤ len) :
    (script m a f len).1.protection = m.protection ↔ SameProtection m a len.toNat := by
  rw [script, if_neg (by omega)]
  exact protect_restore_iff rfl

/-- A patching function leaves the protections alone exactly if every page that it touches has the
protection of the first one. -/
theorem patch_preserves_iff (c : PatchCall) (m : AddressSpace) (address : DWORD) :
    c.Preserves m address ↔ SameProtection m address (c.intended address).length := by
  cases c with
  | WriteBytes pbBytes =>
    exact (and_iff_right rfl).trans (writeBytes_protection_iff m address pbBytes)
  | WriteNOPs length =>
    exact (and_iff_right rfl).trans (writeBytes_protection_iff m address _)
  | script jmpFunc len =>
    have hint := BitVec.toInt_lt (x := len)
    by_cases h5 : len.toInt < 5
    · have hkeep : (PatchCall.script jmpFunc len).exec m address = m := by
        simp [PatchCall.exec, script, h5]
      unfold PatchCall.Preserves
      rw [hkeep]
      simp [PatchCall.intended, h5, store, SameProtection]
    · simp only [PatchCall.Preserves, PatchCall.exec, PatchCall.intended, if_neg h5]
      rw [length_jumpBytes _ _ (by omega), ← script_protection_iff m address jmpFunc (by omega)]
      refine and_iff_right ?_
      have hb := @script_bytes m address jmpFunc len.toInt.toNat (by omega) (by omega)
      rwa [Int.toNat_of_nonneg (by omega)] at hb

/-- A jump over the last two bytes of the code page leaves the data page executable. -/
theorem not_preserves_straddle :
    ¬ (PatchCall.script 0x10001000 6).Preserves codeThenData 0x00400FFE := by
  intro h
  have := congrFun h.2 0x00401
  revert this
  decide +kernel

end Bossran
