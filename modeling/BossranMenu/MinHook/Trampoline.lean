import BossranMenu.MinHook.Hde32

/-!
# The trampoline of a hooked function (`trampoline.c`, 32-bit code)

`createTrampolineFunction` copies the first instructions of the target into a slot, until they make
room for a `JMP`, and appends a jump to where the target goes on. Relative branches are relocated.
-/

namespace Bossran

open Memory

def TRAMPOLINE_MAX_SIZE : Nat := 32

/-- `sizeof(JMP_REL)` -/
def sizeofJmpRel : Nat := 5

/-- `sizeof(JMP_REL_SHORT)` -/
def sizeofJmpRelShort : Nat := 2

def PAGE_EXECUTE_FLAGS : DWORD := 0xF0

/-- `IsExecutableAddress`; a page that is not committed has the protection 0. -/
def isExecutableAddress (m : AddressSpace) (pAddress : DWORD) : Bool :=
  m.protection (pageOf pAddress) &&& PAGE_EXECUTE_FLAGS ≠ 0

/-- `JMP_REL` and `CALL_REL`. -/
def jmpRel (opcode : BYTE) (operand : DWORD) : List BYTE := opcode :: wordBytes operand

/-- `JCC_REL` -/
def jccRel (opcode1 : BYTE) (operand : DWORD) : List BYTE := 0x0f :: opcode1 :: wordBytes operand

/-- The bytes of an instruction, for the disassembler. -/
def codeAt (m : DWORD → BYTE) (a : DWORD) : Nat → BYTE := fun j => m (a + BitVec.ofNat 32 j)

/-- `HDE_DISASM` -/
def disasm (m : DWORD → BYTE) (a : DWORD) : Hde32s := hde32_disasm (codeAt m a)

/-- `hs.imm.imm8` as an `INT8`. -/
def Hde32s.rel8 (hs : Hde32s) : DWORD := (hs.imm.setWidth 8).signExtend 32

/-- `IsCodePadding` -/
def isCodePadding (m : DWORD → BYTE) (pInst : DWORD) (size : Nat) : Bool :=
  (m pInst = 0x00 || m pInst = 0x90 || m pInst = 0xCC) &&
    (List.range size).all fun i => m (pInst + BitVec.ofNat 32 i) = m pInst

/-- What one round of the loop copies, and the locals that it sets. -/
structure Emit where
  copySrc : List BYTE
  jmpDest : DWORD
  finished : Bool

/-- The destination is within the bytes that the hook will overwrite. -/
def internal (pTarget dest : DWORD) : Bool := pTarget ≤ dest && dest < pTarget + 5

section Emit

variable (m : DWORD → BYTE) (pTarget pOldInst pNewInst jmpDest : DWORD) (hs : Hde32s)

/-- The instruction as it is. -/
def copyInst : List BYTE := load m pOldInst hs.len

/-- An internal jump is copied. -/
def emitInternal (dest : DWORD) : Emit :=
  ⟨copyInst m pOldInst hs, if jmpDest < dest then dest else jmpDest, false⟩

/-- The `if` chain for an instruction in front of the fifth byte; `none` is `return FALSE`. -/
def emitInst : Option Emit :=
  let next := pOldInst + BitVec.ofNat 32 hs.len
  if hs.opcode = 0xE8 then
    some ⟨jmpRel 0xE8 (next + hs.imm - (pNewInst + 5)), jmpDest, false⟩
  else if hs.opcode &&& 0xFD = 0xE9 then
    let dest := if hs.opcode = 0xEB then next + hs.rel8 else next + hs.imm
    if internal pTarget dest then some (emitInternal m pOldInst jmpDest hs dest)
    else some ⟨jmpRel 0xE9 (dest - (pNewInst + 5)), jmpDest, jmpDest ≤ pOldInst⟩
  else if hs.opcode &&& 0xF0 = 0x70 ∨ hs.opcode &&& 0xFC = 0xE0 ∨ hs.opcode2 &&& 0xF0 = 0x80 then
    let dest := if hs.opcode &&& 0xF0 = 0x70 ∨ hs.opcode &&& 0xFC = 0xE0 then next + hs.rel8
      else next + hs.imm
    if internal pTarget dest then some (emitInternal m pOldInst jmpDest hs dest)
    else if hs.opcode &&& 0xFC = 0xE0 then none
    else
      let cond := (if hs.opcode ≠ 0x0F then hs.opcode else hs.opcode2) &&& 0x0F
      some ⟨jccRel (0x80 ||| cond) (dest - (pNewInst + 6)), jmpDest, false⟩
  else if hs.opcode &&& 0xFE = 0xC2 then some ⟨copyInst m pOldInst hs, jmpDest, jmpDest ≤ pOldInst⟩
  else some ⟨copyInst m pOldInst hs, jmpDest, false⟩

end Emit

/-- What `CreateTrampolineFunction` has written, and its locals. The first `nIP` entries of `oldIPs`
and `newIPs` are the list `ips`; no position gets past 40, so that a `UINT8` holds it. -/
structure TrampolineState where
  bytes : DWORD → BYTE
  oldPos : Nat
  newPos : Nat
  jmpDest : DWORD
  ips : List (Nat × Nat)

/-- One round of the loop; `none` is `return FALSE`, before anything is copied. -/
def trampolineRound (pTarget pTrampoline : DWORD) (s : TrampolineState) :
    Option (TrampolineState × Bool) :=
  let pOldInst := pTarget + BitVec.ofNat 32 s.oldPos
  let pNewInst := pTrampoline + BitVec.ofNat 32 s.newPos
  let hs := disasm s.bytes pOldInst
  if hs.flags &&& Hde32.F_ERROR ≠ 0 then none
  else
    (if sizeofJmpRel ≤ s.oldPos then
      some ⟨jmpRel 0xE9 (pOldInst - (pNewInst + 5)), s.jmpDest, true⟩
    else emitInst s.bytes pTarget pOldInst pNewInst s.jmpDest hs).bind fun e =>
      if pOldInst < e.jmpDest ∧ e.copySrc.length ≠ hs.len then none
      else if TRAMPOLINE_MAX_SIZE < s.newPos + e.copySrc.length then none
      else if 8 ≤ s.ips.length then none
      else some ({
        bytes := store s.bytes pNewInst e.copySrc
        oldPos := s.oldPos + hs.len
        newPos := s.newPos + e.copySrc.length
        jmpDest := e.jmpDest
        ips := s.ips ++ [(s.oldPos, s.newPos)] }, e.finished)

/-- At most `fuel` rounds of the loop, and whether it was left by its condition. -/
def trampolineLoop (pTarget pTrampoline : DWORD) : Nat → TrampolineState → TrampolineState × Bool
  | 0, s => (s, false)
  | fuel + 1, s =>
    match trampolineRound pTarget pTrampoline s with
    | none => (s, false)
    | some (s, true) => (s, true)
    | some (s, false) => trampolineLoop pTarget pTrampoline fuel s

/-- The fields of `TRAMPOLINE` that are set. -/
structure Trampoline where
  patchAbove : Bool
  ips : List (Nat × Nat)
  deriving DecidableEq

/-- Where the loop over the target begins. -/
def trampolineInit (bytes : DWORD → BYTE) : TrampolineState := ⟨bytes, 0, 0, 0, []⟩

/-- The checks behind the loop; `none` is `return FALSE`. -/
def checkPatch (m : AddressSpace) (pTarget : DWORD) (oldPos : Nat) : Option Bool :=
  let pEnd := pTarget + BitVec.ofNat 32 oldPos
  if oldPos < sizeofJmpRel ∧ !isCodePadding m.bytes pEnd (sizeofJmpRel - oldPos) then
    if oldPos < sizeofJmpRelShort ∧ !isCodePadding m.bytes pEnd (sizeofJmpRelShort - oldPos) then
      none
    else if !isExecutableAddress m (pTarget - 5) then none
    else if !isCodePadding m.bytes (pTarget - 5) sizeofJmpRel then none
    else some true
  else some false

/-- `CreateTrampolineFunction`: the memory afterwards, and the fields that are set if it returns
`TRUE`. There are at most eight rounds, and a ninth that finds the arrays full. -/
def createTrampolineFunction (m : AddressSpace) (pTarget pTrampoline : DWORD) :
    AddressSpace × Option Trampoline :=
  let (s, finished) := trampolineLoop pTarget pTrampoline 9 (trampolineInit m.bytes)
  let m := { m with bytes := s.bytes }
  if finished then (m, (checkPatch m pTarget s.oldPos).map fun patchAbove => ⟨patchAbove, s.ips⟩)
  else (m, none)

end Bossran
