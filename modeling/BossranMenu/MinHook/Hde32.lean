import BossranMenu.AddressSpace
import BossranMenu.Lib.Cursor

/-!
# The length disassembler (`hde32.c`, `table32.h`)

`hde32_disasm` finds the parts of one 32-bit instruction and its length, in a stream of code bytes.
The pointer `p` is the cursor of a reader. The members of a union share its low bytes.
-/

namespace Bossran

open Memory Cursor Reader

namespace Hde32

def C_MODRM : BYTE := 0x01
def C_IMM8 : BYTE := 0x02
def C_IMM16 : BYTE := 0x04
def C_IMM_P66 : BYTE := 0x10
def C_REL8 : BYTE := 0x20
def C_REL32 : BYTE := 0x40
def C_GROUP : BYTE := 0x80
def C_ERROR : BYTE := 0xff

def PRE_NONE : BYTE := 0x01
def PRE_F2 : BYTE := 0x02
def PRE_F3 : BYTE := 0x04
def PRE_66 : BYTE := 0x08
def PRE_67 : BYTE := 0x10
def PRE_LOCK : BYTE := 0x20
def PRE_SEG : BYTE := 0x40

def F_MODRM : DWORD := 0x00000001
def F_SIB : DWORD := 0x00000002
def F_IMM8 : DWORD := 0x00000004
def F_IMM16 : DWORD := 0x00000008
def F_IMM32 : DWORD := 0x00000010
def F_DISP8 : DWORD := 0x00000020
def F_DISP16 : DWORD := 0x00000040
def F_DISP32 : DWORD := 0x00000080
def F_RELATIVE : DWORD := 0x00000100
def F_2IMM16 : DWORD := 0x00000800
def F_ERROR : DWORD := 0x00001000
def F_ERROR_OPCODE : DWORD := 0x00002000
def F_ERROR_LENGTH : DWORD := 0x00004000
def F_ERROR_LOCK : DWORD := 0x00008000
def F_ERROR_OPERAND : DWORD := 0x00010000

def DELTA_OPCODES : Nat := 0x4a
def DELTA_FPU_REG : Nat := 0xf1
def DELTA_FPU_MODRM : Nat := 0xf8
def DELTA_PREFIXES : Nat := 0x130
def DELTA_OP_LOCK_OK : Nat := 0x1a1
def DELTA_OP2_LOCK_OK : Nat := 0x1b9
def DELTA_OP_ONLY_MEM : Nat := 0x1cb
def DELTA_OP2_ONLY_MEM : Nat := 0x1da

def hde32_table : List BYTE := [
  0xa3, 0xa8, 0xa3, 0xa8, 0xa3, 0xa8, 0xa3, 0xa8, 0xa3, 0xa8, 0xa3, 0xa8, 0xa3, 0xa8, 0xa3,
  0xa8, 0xaa, 0xaa, 0xaa, 0xaa, 0xaa, 0xaa, 0xaa, 0xaa, 0xac, 0xaa, 0xb2, 0xaa, 0x9f, 0x9f,
  0x9f, 0x9f, 0xb5, 0xa3, 0xa3, 0xa4, 0xaa, 0xaa, 0xba, 0xaa, 0x96, 0xaa, 0xa8, 0xaa, 0xc3,
  0xc3, 0x96, 0x96, 0xb7, 0xae, 0xd6, 0xbd, 0xa3, 0xc5, 0xa3, 0xa3, 0x9f, 0xc3, 0x9c, 0xaa,
  0xaa, 0xac, 0xaa, 0xbf, 0x03, 0x7f, 0x11, 0x7f, 0x01, 0x7f, 0x01, 0x3f, 0x01, 0x01, 0x90,
  0x82, 0x7d, 0x97, 0x59, 0x59, 0x59, 0x59, 0x59, 0x7f, 0x59, 0x59, 0x60, 0x7d, 0x7f, 0x7f,
  0x59, 0x59, 0x59, 0x59, 0x59, 0x59, 0x59, 0x59, 0x59, 0x59, 0x59, 0x59, 0x9a, 0x88, 0x7d,
  0x59, 0x50, 0x50, 0x50, 0x50, 0x59, 0x59, 0x59, 0x59, 0x61, 0x94, 0x61, 0x9e, 0x59, 0x59,
  0x85, 0x59, 0x92, 0xa3, 0x60, 0x60, 0x59, 0x59, 0x59, 0x59, 0x59, 0x59, 0x59, 0x59, 0x59,
  0x59, 0x59, 0x9f, 0x01, 0x03, 0x01, 0x04, 0x03, 0xd5, 0x03, 0xcc, 0x01, 0xbc, 0x03, 0xf0,
  0x10, 0x10, 0x10, 0x10, 0x50, 0x50, 0x50, 0x50, 0x14, 0x20, 0x20, 0x20, 0x20, 0x01, 0x01,
  0x01, 0x01, 0xc4, 0x02, 0x10, 0x00, 0x00, 0x00, 0x00, 0x01, 0x01, 0xc0, 0xc2, 0x10, 0x11,
  0x02, 0x03, 0x11, 0x03, 0x03, 0x04, 0x00, 0x00, 0x14, 0x00, 0x02, 0x00, 0x00, 0xc6, 0xc8,
  0x02, 0x02, 0x02, 0x02, 0x00, 0x00, 0xff, 0xff, 0xff, 0xff, 0x00, 0x00, 0x00, 0xff, 0xca,
  0x01, 0x01, 0x01, 0x00, 0x06, 0x00, 0x04, 0x00, 0xc0, 0xc2, 0x01, 0x01, 0x03, 0x01, 0xff,
  0xff, 0x01, 0x00, 0x03, 0xc4, 0xc4, 0xc6, 0x03, 0x01, 0x01, 0x01, 0xff, 0x03, 0x03, 0x03,
  0xc8, 0x40, 0x00, 0x0a, 0x00, 0x04, 0x00, 0x00, 0x00, 0x00, 0x7f, 0x00, 0x33, 0x01, 0x00,
  0x00, 0x00, 0x00, 0x00, 0x00, 0xff, 0xbf, 0xff, 0xff, 0x00, 0x00, 0x00, 0x00, 0x07, 0x00,
  0x00, 0xff, 0x00, 0x00, 0x00, 0x00, 0x00, 0x00, 0x00, 0x00, 0x00, 0x00, 0x00, 0x00, 0x00,
  0x00, 0xff, 0xff, 0x00, 0x00, 0x00, 0xbf, 0x00, 0x00, 0x00, 0x00, 0x00, 0x00, 0x00, 0x00,
  0x7f, 0x00, 0x00, 0xff, 0x4a, 0x4a, 0x4a, 0x4a, 0x4b, 0x52, 0x4a, 0x4a, 0x4a, 0x4a, 0x4f,
  0x4c, 0x4a, 0x4a, 0x4a, 0x4a, 0x4a, 0x4a, 0x4a, 0x4a, 0x55, 0x45, 0x40, 0x4a, 0x4a, 0x4a,
  0x45, 0x59, 0x4d, 0x46, 0x4a, 0x5d, 0x4a, 0x4a, 0x4a, 0x4a, 0x4a, 0x4a, 0x4a, 0x4a, 0x4a,
  0x4a, 0x4a, 0x4a, 0x4a, 0x4a, 0x61, 0x63, 0x67, 0x4e, 0x4a, 0x4a, 0x6b, 0x6d, 0x4a, 0x4a,
  0x45, 0x6d, 0x4a, 0x4a, 0x44, 0x45, 0x4a, 0x4a, 0x00, 0x00, 0x00, 0x02, 0x0d, 0x06, 0x06,
  0x06, 0x06, 0x0e, 0x00, 0x00, 0x00, 0x00, 0x06, 0x06, 0x06, 0x00, 0x06, 0x06, 0x02, 0x06,
  0x00, 0x0a, 0x0a, 0x07, 0x07, 0x06, 0x02, 0x05, 0x05, 0x02, 0x02, 0x00, 0x00, 0x04, 0x04,
  0x04, 0x04, 0x00, 0x00, 0x00, 0x0e, 0x05, 0x06, 0x06, 0x06, 0x01, 0x06, 0x00, 0x00, 0x08,
  0x00, 0x10, 0x00, 0x18, 0x00, 0x20, 0x00, 0x28, 0x00, 0x30, 0x00, 0x80, 0x01, 0x82, 0x01,
  0x86, 0x00, 0xf6, 0xcf, 0xfe, 0x3f, 0xab, 0x00, 0xb0, 0x00, 0xb1, 0x00, 0xb3, 0x00, 0xba,
  0xf8, 0xbb, 0x00, 0xc0, 0x00, 0xc1, 0x00, 0xc7, 0xbf, 0x62, 0xff, 0x00, 0x8d, 0xff, 0x00,
  0xc4, 0xff, 0x00, 0xc5, 0xff, 0x00, 0xff, 0xff, 0xeb, 0x01, 0xff, 0x0e, 0x12, 0x08, 0x00,
  0x13, 0x09, 0x00, 0x16, 0x08, 0x00, 0x17, 0x09, 0x00, 0x2b, 0x09, 0x00, 0xae, 0xff, 0x07,
  0xb2, 0xff, 0x00, 0xb4, 0xff, 0x00, 0xb5, 0xff, 0x00, 0xc3, 0x01, 0x00, 0xc7, 0xff, 0xbf,
  0xe7, 0x08, 0x00, 0xf0, 0x02, 0x00]

/-- `hde32_table[i]`. -/
def table (i : Nat) : BYTE := hde32_table.getD i 0

/-- `ht[ht[opcode / 4] + (opcode % 4)]`, `ht` being the `base` of a table of opcodes. -/
def entry (base : Nat) (opcode : BYTE) : BYTE :=
  table (base + (table (base + opcode.toNat / 4)).toNat + opcode.toNat % 4)

end Hde32

structure Hde32s where
  len : Nat := 0
  p_rep : BYTE := 0
  p_lock : BYTE := 0
  p_seg : BYTE := 0
  p_66 : BYTE := 0
  p_67 : BYTE := 0
  opcode : BYTE := 0
  opcode2 : BYTE := 0
  modrm : BYTE := 0
  modrm_mod : BYTE := 0
  modrm_reg : BYTE := 0
  modrm_rm : BYTE := 0
  sib : BYTE := 0
  sib_scale : BYTE := 0
  sib_index : BYTE := 0
  sib_base : BYTE := 0
  imm : DWORD := 0
  disp : DWORD := 0
  flags : DWORD := 0
  deriving DecidableEq

/-- `hs->flags |= f`. -/
def Hde32s.setFlag (hs : Hde32s) (f : DWORD) : Hde32s := { hs with flags := hs.flags ||| f }

/-- `hs->flags |= F_ERROR | f`, if `c`. -/
def Hde32s.errorIf (hs : Hde32s) (c : Bool) (f : DWORD) : Hde32s :=
  if c then hs.setFlag (Hde32.F_ERROR ||| f) else hs

namespace Hde32

/-- A union after its 8-bit member was set. -/
def setLow8 (v : DWORD) (b : BYTE) : DWORD := v.extractLsb' 8 24 ++ b

/-- A union after its 16-bit member was set. -/
def setLow16 (v : DWORD) (w : BitVec 16) : DWORD := v.extractLsb' 16 16 ++ w

def next16 : Reader BYTE (BitVec 16) := do
  let b₀ ← next
  let b₁ ← next
  pure (b₁ ++ b₀)

def next32 : Reader BYTE DWORD := do
  let b₀ ← next
  let b₁ ← next
  let b₂ ← next
  let b₃ ← next
  pure (b₃ ++ b₂ ++ b₁ ++ b₀)

/-! ## Prefixes -/

/-- At most `x` rounds of the loop over the prefixes, with the byte `c` read last. -/
def prefixes (hs : Hde32s) (pref : BYTE) : Nat → BYTE → Reader BYTE (Hde32s × BYTE × BYTE)
  | 0, c => pure (hs, pref, c)
  | x + 1, _ => do
    let c ← next
    if c = 0xf3 then prefixes { hs with p_rep := c } (pref ||| PRE_F3) x c
    else if c = 0xf2 then prefixes { hs with p_rep := c } (pref ||| PRE_F2) x c
    else if c = 0xf0 then prefixes { hs with p_lock := c } (pref ||| PRE_LOCK) x c
    else if c = 0x26 ∨ c = 0x2e ∨ c = 0x36 ∨ c = 0x3e ∨ c = 0x64 ∨ c = 0x65 then
      prefixes { hs with p_seg := c } (pref ||| PRE_SEG) x c
    else if c = 0x66 then prefixes { hs with p_66 := c } (pref ||| PRE_66) x c
    else if c = 0x67 then prefixes { hs with p_67 := c } (pref ||| PRE_67) x c
    else pure (hs, pref, c)

/-! ## The `ModR/M` byte -/

/-- `(x << r) & 0x80`. -/
def bit80 (x r : BYTE) : Bool := (x <<< r) &&& 0x80 ≠ 0

/-- An x87 instruction that does not exist. -/
def fpuError (opcode m_mod m_reg m_rm : BYTE) : Bool :=
  let t := (opcode - 0xd9).toNat
  if m_mod = 3 then bit80 (table (DELTA_FPU_MODRM + t * 8 + m_reg.toNat)) m_rm
  else bit80 (table (DELTA_FPU_REG + t)) m_reg

/-- The loop over the `n` pairs from `ht` on: does `op` take a `LOCK` prefix? -/
def lockOk (op m_reg : BYTE) (ht : Nat) : Nat → Bool
  | 0 => false
  | n + 1 => if table ht = op then !bit80 (table (ht + 1)) m_reg else lockOk op m_reg (ht + 2) n

def lockError (opcode2 opcode m_mod m_reg : BYTE) : Bool :=
  if m_mod = 3 then true
  else if opcode2 ≠ 0 then
    !lockOk opcode m_reg DELTA_OP2_LOCK_OK ((DELTA_OP_ONLY_MEM - DELTA_OP2_LOCK_OK) / 2)
  else
    !lockOk (opcode &&& 0xfe) m_reg DELTA_OP_LOCK_OK ((DELTA_OP2_LOCK_OK - DELTA_OP_LOCK_OK) / 2)

/-- The loop over the `n` triples from `ht` on: does `opcode` want a memory operand? -/
def onlyMem (opcode pref m_reg : BYTE) (ht : Nat) : Nat → Bool
  | 0 => false
  | n + 1 =>
    if table ht = opcode then table (ht + 1) &&& pref ≠ 0 && !bit80 (table (ht + 2)) m_reg
    else onlyMem opcode pref m_reg (ht + 3) n

/-- `MOV` from and to a control or debug register: the operand is a register, whatever `mod` is. -/
def movCrDr (opcode2 opcode : BYTE) : Bool := opcode2 ≠ 0 && 0x20 ≤ opcode && opcode ≤ 0x23

/-- Whether the source goes to `error_operand`. -/
def operandError (opcode2 opcode pref m_mod m_reg : BYTE) : Bool :=
  if opcode2 ≠ 0 && (opcode = 0x20 || opcode = 0x22) then m_reg > 4 || m_reg = 1
  else if opcode2 ≠ 0 && (opcode = 0x21 || opcode = 0x23) then m_reg = 4 || m_reg = 5
  else if opcode2 = 0 && opcode = 0x8c then m_reg > 5
  else if opcode2 = 0 && opcode = 0x8e then m_reg = 1 || m_reg > 5
  else if m_mod = 3 then
    if opcode2 ≠ 0 then
      onlyMem opcode pref m_reg DELTA_OP2_ONLY_MEM ((hde32_table.length - DELTA_OP2_ONLY_MEM) / 3)
    else
      onlyMem opcode pref m_reg DELTA_OP_ONLY_MEM ((DELTA_OP2_ONLY_MEM - DELTA_OP_ONLY_MEM) / 3)
  else if opcode2 ≠ 0 then
    if opcode = 0x50 || opcode = 0xd7 || opcode = 0xf7 then pref &&& (PRE_NONE ||| PRE_66) ≠ 0
    else if opcode = 0xd6 then pref &&& (PRE_F2 ||| PRE_F3) ≠ 0
    else opcode = 0xc5
  else false

/-- The size of the displacement, a `SIB` byte left out of account. -/
def dispSize (pref m_mod m_rm : BYTE) : Nat :=
  if m_mod = 0 then
    if pref &&& PRE_67 ≠ 0 then if m_rm = 6 then 2 else 0
    else if m_rm = 5 then 4 else 0
  else if m_mod = 1 then 1
  else if m_mod = 2 then if pref &&& PRE_67 = 0 then 4 else 2
  else 0

/-- The displacement. -/
def readDisp (hs : Hde32s) (disp_size : Nat) : Reader BYTE Hde32s :=
  if disp_size = 1 then do
    let b ← next
    pure { hs.setFlag F_DISP8 with disp := setLow8 hs.disp b }
  else if disp_size = 2 then do
    let w ← next16
    pure { hs.setFlag F_DISP16 with disp := setLow16 hs.disp w }
  else if disp_size = 4 then do
    let v ← next32
    pure { hs.setFlag F_DISP32 with disp := v }
  else pure hs

/-- The errors of the operand whose `ModR/M` byte was read into `hs`. -/
def checkOperand (hs : Hde32s) (pref opcode x : BYTE) : Hde32s :=
  let group := x ≠ 0 && bit80 x hs.modrm_reg
  let fpu := hs.opcode2 = 0 && 0xd9 ≤ opcode && opcode ≤ 0xdf &&
    fpuError opcode hs.modrm_mod hs.modrm_reg hs.modrm_rm
  let lock := pref &&& PRE_LOCK ≠ 0 && lockError hs.opcode2 opcode hs.modrm_mod hs.modrm_reg
  let operand := operandError hs.opcode2 opcode pref hs.modrm_mod hs.modrm_reg
  (((hs.errorIf group F_ERROR_OPCODE).errorIf fpu F_ERROR_OPCODE).errorIf lock F_ERROR_LOCK).errorIf
    operand F_ERROR_OPERAND

/-- The `SIB` byte and the displacement. -/
def readAddress (hs : Hde32s) (pref opcode : BYTE) : Reader BYTE Hde32s :=
  let m_mod := if movCrDr hs.opcode2 opcode then 3 else hs.modrm_mod
  if m_mod ≠ 3 ∧ hs.modrm_rm = 4 ∧ pref &&& PRE_67 = 0 then do
    let c ← next
    let hs := { hs.setFlag F_SIB with
      sib := c, sib_scale := c >>> 6, sib_index := (c &&& 0x3f) >>> 3, sib_base := c &&& 7 }
    readDisp hs (if c &&& 7 = 5 ∧ m_mod &&& 1 = 0 then 4 else dispSize pref m_mod hs.modrm_rm)
  else readDisp hs (dispSize pref m_mod hs.modrm_rm)

/-- The flags of the opcode with the immediate operand that `TEST` alone has in its group. -/
def testImm (cflags opcode m_reg : BYTE) : BYTE :=
  if m_reg ≤ 1 then
    if opcode = 0xf6 then cflags ||| C_IMM8
    else if opcode = 0xf7 then cflags ||| C_IMM_P66
    else cflags
  else cflags

/-! ## Immediate operands -/

/-- From the label `rel32_ok`. -/
def readRel32 (hs : Hde32s) : Reader BYTE Hde32s := do
  let v ← next32
  pure { hs.setFlag (F_IMM32 ||| F_RELATIVE) with imm := v }

def readImm16 (hs : Hde32s) (cflags : BYTE) : Reader BYTE Hde32s :=
  if cflags &&& C_IMM16 ≠ 0 then do
    let w ← next16
    if hs.flags &&& F_IMM32 ≠ 0 then
      pure { hs.setFlag F_IMM16 with disp := setLow16 hs.disp w }
    else if hs.flags &&& F_IMM16 ≠ 0 then
      pure { hs.setFlag F_2IMM16 with disp := setLow16 hs.disp w }
    else pure { hs.setFlag F_IMM16 with imm := setLow16 hs.imm w }
  else pure hs

def readImm8 (hs : Hde32s) (cflags : BYTE) : Reader BYTE Hde32s :=
  if cflags &&& C_IMM8 ≠ 0 then do
    let b ← next
    pure { hs.setFlag F_IMM8 with imm := setLow8 hs.imm b }
  else pure hs

/-- What is left once the operand that depends on the operand size is read. -/
def readRest (hs : Hde32s) (cflags : BYTE) : Reader BYTE Hde32s := do
  let hs ← readImm16 hs cflags
  let hs ← readImm8 hs cflags
  if cflags &&& C_REL32 ≠ 0 then readRel32 hs
  else if cflags &&& C_REL8 ≠ 0 then do
    let b ← next
    pure { hs.setFlag (F_IMM8 ||| F_RELATIVE) with imm := setLow8 hs.imm b }
  else pure hs

def readImm (hs : Hde32s) (pref cflags : BYTE) : Reader BYTE Hde32s :=
  if cflags &&& C_IMM_P66 ≠ 0 then
    if cflags &&& C_REL32 ≠ 0 then
      if pref &&& PRE_66 ≠ 0 then do
        let w ← next16
        pure { hs.setFlag (F_IMM16 ||| F_RELATIVE) with imm := setLow16 hs.imm w }
      else readRel32 hs
    else if pref &&& PRE_66 ≠ 0 then do
      let w ← next16
      readRest { hs.setFlag F_IMM16 with imm := setLow16 hs.imm w } cflags
    else do
      let v ← next32
      readRest { hs.setFlag F_IMM32 with imm := v } cflags
  else readRest hs cflags

/-! ## The instruction -/

/-- What is behind the opcode, whose flags `cflags` and `x` are known. -/
def readOperands (hs : Hde32s) (pref opcode cflags x : BYTE) : Reader BYTE Hde32s :=
  if cflags &&& C_MODRM ≠ 0 then do
    let c ← next
    let hs := { hs.setFlag F_MODRM with
      modrm := c, modrm_mod := c >>> 6, modrm_rm := c &&& 7, modrm_reg := (c &&& 0x3f) >>> 3 }
    let hs ← readAddress (checkOperand hs pref opcode x) pref opcode
    readImm hs pref (testImm cflags opcode hs.modrm_reg)
  else readImm (hs.errorIf (pref &&& PRE_LOCK ≠ 0) F_ERROR_LOCK) pref cflags

/-- The flags of an opcode in the table of opcodes at `base`, and the mask of its group. -/
def opcodeFlags (base : Nat) (opcode : BYTE) : BYTE × BYTE :=
  let e := entry base opcode
  let cflags := if e = C_ERROR then if opcode &&& 0xfd = 0x24 then 1 else 0 else e
  if cflags &&& C_GROUP ≠ 0 then
    let t := base + (cflags &&& 0x7f).toNat
    (table t, table (t + 1))
  else (cflags, 0)

/-- What is behind the opcode. -/
def readTail (hs : Hde32s) (pref opcode : BYTE) (base : Nat) : Reader BYTE Hde32s :=
  let hs := hs.errorIf (entry base opcode = C_ERROR) F_ERROR_OPCODE
  let hs := hs.errorIf (hs.opcode2 ≠ 0 && entry DELTA_PREFIXES opcode &&& pref ≠ 0) F_ERROR_OPCODE
  readOperands hs pref opcode (opcodeFlags base opcode).1 (opcodeFlags base opcode).2

/-- The prefixes that `MOV` between the accumulator and an offset is seen with. -/
def offsetPref (pref c : BYTE) : BYTE :=
  if 0xa0 ≤ c ∧ c ≤ 0xa3 then
    if pref &&& PRE_67 ≠ 0 then pref ||| PRE_66 else pref &&& ~~~PRE_66
  else pref

def instruction : Reader BYTE Hde32s := do
  let (hs, pref, c) ← prefixes {} 0 16 0
  let hs := { hs with flags := pref.setWidth 32 <<< 23, opcode := c }
  let pref := if pref = 0 then PRE_NONE else pref
  if c = 0x0f then do
    let c ← next
    readTail { hs with opcode2 := c } pref c DELTA_OPCODES
  else readTail hs (offsetPref pref c) c 0

end Hde32

open Hde32

/-- From the label `disasm_done`, `p` bytes behind the first one. -/
def Hde32s.finish (hs : Hde32s) (p : Nat) : Hde32s :=
  if p % 256 > 15 then { hs.setFlag (F_ERROR ||| F_ERROR_LENGTH) with len := 15 }
  else { hs with len := p % 256 }

/-- `hde32_disasm`; the bytes from `code` on are the stream. -/
def hde32_disasm (code : Nat → BYTE) : Hde32s :=
  (instruction.run code 0).1.finish (instruction.run code 0).2

/-! ## How much is read -/

namespace Hde32

theorem within_next16 : next16.Within 2 :=
  within_next.bind fun _ => within_next.bind fun _ => within_pure _

theorem within_next32 : next32.Within 4 :=
  within_next.bind fun _ => within_next.bind fun _ => within_next.bind fun _ =>
    within_next.bind fun _ => within_pure _

theorem within_prefixes (hs : Hde32s) (pref : BYTE) (x : Nat) (c : BYTE) :
    (prefixes hs pref x c).Within x := by
  induction x generalizing hs pref c with
  | zero => exact within_pure _
  | succ x ih =>
    have hround : (prefixes hs pref (x + 1) c).Within (1 + x) := by
      apply within_next.bind
      intro c
      have hdone : (pure (hs, pref, c) : Reader BYTE _).Within x :=
        (within_pure _).le (Nat.zero_le x)
      exact .ite (ih _ _ _) (.ite (ih _ _ _) (.ite (ih _ _ _) (.ite (ih _ _ _) (.ite (ih _ _ _)
        (.ite (ih _ _ _) hdone)))))
    exact hround.le (by omega)

theorem within_readDisp (hs : Hde32s) (n : Nat) : (readDisp hs n).Within 4 := by
  refine .ite ?_ (.ite ?_ (.ite ?_ ((within_pure _).le (by omega))))
  · exact (within_next.bind fun _ => within_pure _).le (by omega)
  · exact (within_next16.bind fun _ => within_pure _).le (by omega)
  · exact within_next32.bind fun _ => within_pure _

theorem within_readAddress (hs : Hde32s) (pref opcode : BYTE) :
    (readAddress hs pref opcode).Within 5 :=
  .ite (within_next.bind fun _ => within_readDisp _ _) ((within_readDisp _ _).le (by omega))

theorem within_readRel32 (hs : Hde32s) : (readRel32 hs).Within 4 :=
  within_next32.bind fun _ => within_pure _

theorem within_readImm16 (hs : Hde32s) (cflags : BYTE) : (readImm16 hs cflags).Within 2 :=
  .ite (within_next16.bind fun _ => .ite (within_pure _) (.ite (within_pure _) (within_pure _)))
    ((within_pure _).le (by omega))

theorem within_readImm8 (hs : Hde32s) (cflags : BYTE) : (readImm8 hs cflags).Within 1 :=
  .ite (within_next.bind fun _ => within_pure _) ((within_pure _).le (by omega))

theorem within_readRest (hs : Hde32s) (cflags : BYTE) : (readRest hs cflags).Within 7 := by
  refine (within_readImm16 _ _).bind fun _ => (within_readImm8 _ _).bind fun hs =>
    .ite (within_readRel32 hs) (.ite ?_ ((within_pure hs).le (by omega)))
  exact (within_next.bind fun _ => within_pure _).le (by omega)

theorem within_readImm (hs : Hde32s) (pref cflags : BYTE) : (readImm hs pref cflags).Within 11 := by
  refine .ite (.ite (.ite ?_ ?_) (.ite ?_ ?_)) ((within_readRest _ _).le (by omega))
  · exact (within_next16.bind fun _ => within_pure _).le (by omega)
  · exact (within_readRel32 hs).le (by omega)
  · exact (within_next16.bind fun _ => within_readRest _ _).le (by omega)
  · exact within_next32.bind fun _ => within_readRest _ _

theorem within_readTail (hs : Hde32s) (pref opcode : BYTE) (base : Nat) :
    (readTail hs pref opcode base).Within 17 :=
  .ite (within_next.bind fun _ => (within_readAddress _ _ _).bind fun _ => within_readImm _ _ _)
    ((within_readImm _ _ _).le (by omega))

theorem within_instruction : instruction.Within 34 := by
  refine Within.bind (k := 18) (within_prefixes {} 0 16 0) ?_
  rintro ⟨hs, pref, c⟩
  refine .ite ?_ ((within_readTail _ _ _ _).le (by omega))
  exact within_next.bind fun _ => within_readTail _ _ _ _

/-- The prefix loop reads a byte. -/
theorem instruction_pos (code : Nat → BYTE) : 0 < (instruction.run code 0).2 := by
  have hone : 1 ≤ ((prefixes {} 0 16 0).run code 0).2 := by
    rw [prefixes, run_bind]
    exact mono _ code 1
  exact Nat.lt_of_lt_of_le hone (mono _ code _)

end Hde32

theorem Hde32s.finish_len_le (hs : Hde32s) (p : Nat) : (hs.finish p).len ≤ 15 := by
  unfold finish
  split
  · exact Nat.le_refl 15
  · exact Nat.not_lt.mp ‹_›

/-- A length without an error is the number of bytes that were read. -/
theorem Hde32s.finish_of_ok {hs : Hde32s} {p : Nat} (hp : p < 256)
    (hok : (hs.finish p).flags &&& F_ERROR = 0) : p ≤ 15 ∧ hs.finish p = { hs with len := p } := by
  unfold finish at hok ⊢
  rw [Nat.mod_eq_of_lt hp] at hok ⊢
  split at hok
  · -- the bit of `F_ERROR`
    have hbit := congrArg (BitVec.getLsbD · 12) hok
    simp [setFlag, F_ERROR, F_ERROR_LENGTH] at hbit
  · rename_i hle
    exact ⟨by omega, if_neg hle⟩

theorem hde32_disasm_len_pos (code : Nat → BYTE) : 0 < (hde32_disasm code).len := by
  have hpos := instruction_pos code
  have hle := within_instruction code 0
  unfold hde32_disasm Hde32s.finish
  rw [Nat.mod_eq_of_lt (by omega)]
  split
  · exact Nat.zero_lt_succ 14
  · exact hpos

theorem hde32_disasm_len_le (code : Nat → BYTE) : (hde32_disasm code).len ≤ 15 :=
  Hde32s.finish_len_le _ _

theorem hde32_disasm_agree {code code' : Nat → BYTE} (h : ∀ j < 34, code' j = code j) :
    hde32_disasm code' = hde32_disasm code := by
  have hle := within_instruction code 0
  have hrun : instruction.run code' 0 = instruction.run code 0 :=
    run_congr _ fun j _ hj => h j (by omega)
  rw [hde32_disasm, hde32_disasm, hrun]

/-- An instruction without an error is found from its own bytes alone. -/
theorem hde32_disasm_congr {code code' : Nat → BYTE}
    (hok : (hde32_disasm code).flags &&& F_ERROR = 0)
    (h : ∀ j < (hde32_disasm code).len, code' j = code j) :
    hde32_disasm code' = hde32_disasm code := by
  have hle := within_instruction code 0
  obtain ⟨-, hlen⟩ := Hde32s.finish_of_ok (by omega) hok
  have hrun : instruction.run code' 0 = instruction.run code 0 := by
    apply run_congr
    intro j _ hj
    apply h
    rwa [hde32_disasm, hlen]
  rw [hde32_disasm, hde32_disasm, hrun]

/-! ## The opcode -/

namespace Hde32

/-- The two bytes of the opcode are what they were. -/
def SameOpcode (hs hs' : Hde32s) : Prop := hs'.opcode = hs.opcode ∧ hs'.opcode2 = hs.opcode2

theorem SameOpcode.errorIf {hs₀ hs : Hde32s} (h : SameOpcode hs₀ hs) (c : Bool) (f : DWORD) :
    SameOpcode hs₀ (hs.errorIf c f) := by
  cases c <;> exact h

theorem readDisp_same {hs₀ hs : Hde32s} (h : SameOpcode hs₀ hs) (n : Nat) :
    (readDisp hs n).Yields (SameOpcode hs₀) :=
  .ite (yields_bind fun _ => yields_pure h) (.ite (yields_bind fun _ => yields_pure h)
    (.ite (yields_bind fun _ => yields_pure h) (yields_pure h)))

theorem checkOperand_same {hs₀ hs : Hde32s} (h : SameOpcode hs₀ hs) (pref opcode x : BYTE) :
    SameOpcode hs₀ (checkOperand hs pref opcode x) :=
  (((h.errorIf _ _).errorIf _ _).errorIf _ _).errorIf _ _

theorem readAddress_same {hs₀ hs : Hde32s} (h : SameOpcode hs₀ hs) (pref opcode : BYTE) :
    (readAddress hs pref opcode).Yields (SameOpcode hs₀) := by
  refine .ite (yields_bind fun _ => readDisp_same ?_ _) (readDisp_same h _)
  exact h

theorem readRest_same {hs₀ hs : Hde32s} (h : SameOpcode hs₀ hs) (cflags : BYTE) :
    (readRest hs cflags).Yields (SameOpcode hs₀) := by
  have h16 : (readImm16 hs cflags).Yields (SameOpcode hs₀) :=
    .ite (yields_bind fun _ => .ite (yields_pure h) (.ite (yields_pure h) (yields_pure h)))
      (yields_pure h)
  refine h16.bind fun a ha => ?_
  have h8 : (readImm8 a cflags).Yields (SameOpcode hs₀) :=
    .ite (yields_bind fun _ => yields_pure ha) (yields_pure ha)
  exact h8.bind fun b hb => .ite (yields_bind fun _ => yields_pure hb)
    (.ite (yields_bind fun _ => yields_pure hb) (yields_pure hb))

theorem readImm_same {hs₀ hs : Hde32s} (h : SameOpcode hs₀ hs) (pref cflags : BYTE) :
    (readImm hs pref cflags).Yields (SameOpcode hs₀) := by
  refine .ite (.ite (.ite ?_ ?_) (.ite ?_ ?_)) (readRest_same h _)
  · exact yields_bind fun _ => yields_pure h
  · exact yields_bind fun _ => yields_pure h
  · refine yields_bind fun _ => readRest_same ?_ _
    exact h
  · refine yields_bind fun _ => readRest_same ?_ _
    exact h

theorem readOperands_same {hs₀ hs : Hde32s} (h : SameOpcode hs₀ hs)
    (pref opcode cflags x : BYTE) :
    (readOperands hs pref opcode cflags x).Yields (SameOpcode hs₀) := by
  refine .ite (yields_bind fun c => ?_) (readImm_same (h.errorIf _ _) _ _)
  refine Yields.bind (readAddress_same (checkOperand_same ?_ _ _ _) _ _) fun a ha =>
    readImm_same ha _ _
  exact h

theorem readTail_same (hs : Hde32s) (pref opcode : BYTE) (base : Nat) :
    (readTail hs pref opcode base).Yields (SameOpcode hs) := by
  have h : SameOpcode hs hs := ⟨rfl, rfl⟩
  exact readOperands_same ((h.errorIf _ _).errorIf _ _) _ _ _ _

theorem finish_same (hs : Hde32s) (p : Nat) : SameOpcode hs (hs.finish p) := by
  unfold Hde32s.finish
  split <;> exact ⟨rfl, rfl⟩

end Hde32

/-- Only the opcode `0F` has a second byte. -/
theorem hde32_disasm_opcode2 {code : Nat → BYTE} (h : (hde32_disasm code).opcode2 ≠ 0) :
    (hde32_disasm code).opcode = 0x0f := by
  obtain ⟨h1, h2⟩ := finish_same (instruction.run code 0).1 (instruction.run code 0).2
  have hpref : (prefixes {} 0 16 0).Yields fun r => r.1.opcode2 = 0 := by
    have hall : ∀ (x : Nat) (hs : Hde32s) (pref c : BYTE), hs.opcode2 = 0 →
        (prefixes hs pref x c).Yields fun r => r.1.opcode2 = 0 := by
      intro x
      induction x with
      | zero => exact fun hs pref c h0 => yields_pure h0
      | succ x ih =>
        intro hs pref c h0
        rw [prefixes]
        exact yields_bind fun c => .ite (ih _ _ _ h0) (.ite (ih _ _ _ h0) (.ite (ih _ _ _ h0)
          (.ite (ih _ _ _ h0) (.ite (ih _ _ _ h0) (.ite (ih _ _ _ h0) (yields_pure h0))))))
    exact hall 16 {} 0 0 rfl
  have hinst : instruction.Yields fun hs => hs.opcode2 ≠ 0 → hs.opcode = 0x0f := by
    refine hpref.bind ?_
    rintro ⟨hs, pref, c⟩ h0
    dsimp only at h0 ⊢
    split
    · rename_i hc
      refine yields_bind fun c' s i _ => ?_
      rw [(readTail_same _ _ _ _ s i).1]
      exact hc
    · intro s i hne
      rw [(readTail_same _ _ _ _ s i).2] at hne
      exact absurd h0 hne
  rw [hde32_disasm, h1]
  rw [hde32_disasm, h2] at h
  exact hinst code 0 h

/-! ## Relative branches -/

namespace Hde32
def prefixBytes : List BYTE :=
  [0xf3, 0xf2, 0xf0, 0x26, 0x2e, 0x36, 0x3e, 0x64, 0x65, 0x66, 0x67]

/-- A byte that is no prefix is the opcode. -/
theorem prefixes_opcode {code : Nat → BYTE} {i : Nat} (h : code i ∉ prefixBytes) (hs : Hde32s)
    (pref : BYTE) (x : Nat) (c : BYTE) :
    (prefixes hs pref (x + 1) c).run code i = ((hs, pref, code i), i + 1) := by
  simp only [prefixBytes, List.mem_cons, List.not_mem_nil, not_or, or_false] at h
  rw [prefixes, run_bind, run_next]
  simp only [h, or_false, if_false, run_pure]

/-- The operand of a 32-bit relative branch. -/
def rel32 (code : Nat → BYTE) (i : Nat) : DWORD :=
  code (i + 3) ++ code (i + 2) ++ code (i + 1) ++ code i

theorem readTail_rel32 {hs : Hde32s} {opcode : BYTE} {base : Nat}
    (hentry : entry base opcode = 0x50)
    (hpref : hs.opcode2 = 0 ∨ entry DELTA_PREFIXES opcode &&& PRE_NONE = 0) :
    readTail hs PRE_NONE opcode base = readRel32 hs := by
  have hne : (0x50 : BYTE) ≠ C_ERROR := by decide
  have hgroup : (0x50 : BYTE) &&& C_GROUP = 0 := by decide
  have hmodrm : (0x50 : BYTE) &&& C_MODRM = 0 := by decide
  have himm : (0x50 : BYTE) &&& C_IMM_P66 ≠ 0 := by decide
  have hrel : (0x50 : BYTE) &&& C_REL32 ≠ 0 := by decide
  have hlock : PRE_NONE &&& PRE_LOCK = 0 := by decide
  have h66 : PRE_NONE &&& PRE_66 = 0 := by decide
  have hflags : opcodeFlags base opcode = (0x50, 0) := by
    simp only [opcodeFlags, hentry, if_neg hne, hgroup, ne_eq, not_true_eq_false, if_false]
  have hp : (hs.opcode2 ≠ 0 && entry DELTA_PREFIXES opcode &&& PRE_NONE ≠ 0) = false := by
    rcases hpref with h | h <;> simp [h]
  simp only [readTail, hentry, hne, decide_false, Hde32s.errorIf, Bool.false_eq_true, if_false, hp,
    hflags, readOperands, readImm, hmodrm, himm, hrel, hlock, h66, ne_eq, not_true_eq_false,
    not_false_eq_true, if_true]

theorem run_readRel32 {hs : Hde32s} (hflags : hs.flags = (0 : BYTE).setWidth 32 <<< 23)
    (code : Nat → BYTE) (i : Nat) : (readRel32 hs).run code i =
      ({ hs with flags := F_IMM32 ||| F_RELATIVE, imm := rel32 code i }, i + 4) := by
  have hor : hs.flags ||| (F_IMM32 ||| F_RELATIVE) = F_IMM32 ||| F_RELATIVE := by
    rw [hflags]
    decide
  calc (readRel32 hs).run code i
      = ({ hs with flags := hs.flags ||| (F_IMM32 ||| F_RELATIVE), imm := rel32 code i }, i + 4) :=
        rfl
    _ = _ := by rw [hor]

/-- `CALL` and `JMP` with a 32-bit operand. -/
theorem instruction_rel32 {code : Nat → BYTE} {c : BYTE} (h : code 0 = c)
    (hc : c = 0xe8 ∨ c = 0xe9) : instruction.run code 0 =
      ({ opcode := c, imm := rel32 code 1, flags := F_IMM32 ||| F_RELATIVE }, 5) := by
  have hpre : code 0 ∉ prefixBytes := by
    rw [h]
    rcases hc with rfl | rfl <;> decide
  have h0f : c ≠ 0x0f ∧ offsetPref PRE_NONE c = PRE_NONE ∧ entry 0 c = 0x50 := by
    rcases hc with rfl | rfl <;> decide +kernel
  rw [instruction, run_bind, prefixes_opcode hpre, h]
  simp only [if_true, h0f.1, if_false, h0f.2.1]
  rw [readTail_rel32 h0f.2.2 (.inl rfl), run_readRel32 rfl]

theorem entry_jcc : ∀ c : BYTE, c &&& 0xf0 = 0x80 →
    entry DELTA_OPCODES c = 0x50 ∧ entry DELTA_PREFIXES c &&& PRE_NONE = 0 := by
  decide +kernel

/-- `Jcc` with a 32-bit operand. -/
theorem instruction_jcc {code : Nat → BYTE} {c : BYTE} (h0 : code 0 = 0x0f) (h1 : code 1 = c)
    (hc : c &&& 0xf0 = 0x80) : instruction.run code 0 =
      ({ opcode := 0x0f, opcode2 := c, imm := rel32 code 2,
          flags := F_IMM32 ||| F_RELATIVE }, 6) := by
  have hpre : code 0 ∉ prefixBytes := by
    rw [h0]
    decide
  obtain ⟨hentry, hpref⟩ := entry_jcc c hc
  rw [instruction, run_bind, prefixes_opcode hpre, h0]
  simp only [if_true, run_bind, run_next, h1]
  rw [readTail_rel32 hentry (.inr hpref), run_readRel32 rfl]

end Hde32
/-- `CALL` and `JMP` with a 32-bit operand. -/
theorem hde32_disasm_rel32 {code : Nat → BYTE} {c : BYTE} (h : code 0 = c)
    (hc : c = 0xe8 ∨ c = 0xe9) : hde32_disasm code =
      { len := 5, opcode := c, imm := rel32 code 1, flags := F_IMM32 ||| F_RELATIVE } := by
  rw [hde32_disasm, instruction_rel32 h hc]
  rfl

/-- `Jcc` with a 32-bit operand. -/
theorem hde32_disasm_jcc {code : Nat → BYTE} {c : BYTE} (h0 : code 0 = 0x0f) (h1 : code 1 = c)
    (hc : c &&& 0xf0 = 0x80) : hde32_disasm code =
      { len := 6, opcode := 0x0f, opcode2 := c, imm := rel32 code 2,
        flags := F_IMM32 ||| F_RELATIVE } := by
  rw [hde32_disasm, instruction_jcc h0 h1 hc]
  rfl

/-- A `JMP` seven bytes back from its end, with an 8-bit operand. -/
theorem hde32_disasm_shortJump {code : Nat → BYTE} (h0 : code 0 = 0xeb) (h1 : code 1 = 0xf9) :
    hde32_disasm code =
      { len := 2, opcode := 0xeb, imm := 0xf9, flags := F_IMM8 ||| F_RELATIVE } := by
  have hfirst : hde32_disasm (fun j => if j = 0 then 0xeb else 0xf9) =
      { len := 2, opcode := 0xeb, imm := 0xf9, flags := F_IMM8 ||| F_RELATIVE } := by
    decide +kernel
  rw [← hfirst]
  refine hde32_disasm_congr (by rw [hfirst]; decide) fun j hj => ?_
  rw [hfirst] at hj
  have hj2 : j = 0 ∨ j = 1 := by
    dsimp only at hj
    omega
  rcases hj2 with rfl | rfl
  · exact h0
  · exact h1

/-- A first byte that is no prefix is the opcode. -/
theorem hde32_disasm_opcode {code : Nat → BYTE} (h : code 0 ∉ prefixBytes) :
    (hde32_disasm code).opcode = code 0 := by
  have hinst : (instruction.run code 0).1.opcode = code 0 := by
    rw [instruction, run_bind, prefixes_opcode h]
    dsimp only
    split
    · rw [run_bind, (readTail_same _ _ _ _ code _).1]
    · rw [(readTail_same _ _ _ _ code _).1]
  rw [hde32_disasm, (finish_same _ _).1, hinst]

end Bossran
