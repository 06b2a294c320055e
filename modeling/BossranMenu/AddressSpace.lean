import BossranMenu.Lib.Pattern

/-!
# The game's address space (`mem.h`)

`AddressSpace` is what the patching code acts on: the bytes of the 32-bit process and the
protection of each 4 KiB page. Every address can be read and written: the fault that an access to
an unmapped page raises is not part of the model, so a write that would fault is seen as a write.

`virtualProtect` is `VirtualProtect` with its documented effect; `writeBytes` is `WriteBytes`. The
arrays that the callers pass hold exactly `iCount` bytes, so the list stands for both arguments.
-/

namespace Bossran

open Memory

abbrev BYTE := BitVec 8
abbrev DWORD := BitVec 32

/-- A page number. -/
abbrev Page := BitVec 20

def pageOf (a : DWORD) : Page := a.extractLsb' 12 20

theorem toNat_pageOf (a : DWORD) : (pageOf a).toNat = a.toNat / 4096 := by
  have := a.isLt
  rw [pageOf, BitVec.extractLsb'_toNat, Nat.shiftRight_eq_div_pow]
  exact Nat.mod_eq_of_lt (by omega)

def PAGE_EXECUTE_READWRITE : DWORD := 0x40

structure AddressSpace where
  bytes : DWORD → BYTE
  /-- The `PAGE_*` constant of each page. -/
  protection : Page → DWORD

/-- `VirtualProtect(a, n, new, &old)`: every page that the `n` bytes touch gets the protection
`new`; the old protection reported is the one of the first page. -/
def virtualProtect (m : AddressSpace) (a : DWORD) (n : Nat) (new : DWORD) : AddressSpace × DWORD :=
  ({ m with protection := fun page =>
      if ∃ k < n, pageOf (a + BitVec.ofNat 32 k) = page then new else m.protection page },
    m.protection (pageOf a))

@[simp] theorem virtualProtect_bytes (m : AddressSpace) (a : DWORD) (n : Nat) (new : DWORD) :
    (virtualProtect m a n new).1.bytes = m.bytes := rfl

/-- `WriteBytes`. -/
def writeBytes (m : AddressSpace) (dwAddress : DWORD) (pbBytes : List BYTE) : AddressSpace :=
  let (m₁, dwOld) := virtualProtect m dwAddress pbBytes.length PAGE_EXECUTE_READWRITE
  let m₂ := { m₁ with bytes := store m₁.bytes dwAddress pbBytes }
  (virtualProtect m₂ dwAddress pbBytes.length dwOld).1

@[simp] theorem writeBytes_bytes (m : AddressSpace) (a : DWORD) (bs : List BYTE) :
    (writeBytes m a bs).bytes = store m.bytes a bs := rfl

end Bossran
