import BossranMenu.AddressSpace
import BossranMenu.Lib.Chain

/-!
# The slots of the trampolines (`buffer.c`, 32-bit code)

`BufferState` is the memory and the head of the list of blocks. A block is a page; its first slot
holds its `MEMORY_BLOCK`, the other 127 are linked through their first words while they are free.
`none` as the result of an operation stands for a loop that does not end.
-/

namespace Bossran

open Memory LinkedList

def MEMORY_BLOCK_SIZE : Nat := 0x1000

def MEMORY_SLOT_SIZE : Nat := 32

structure BufferState where
  mem : AddressSpace
  g_pMemoryBlocks : DWORD

section Fields

variable (m : DWORD → BYTE) (p : DWORD)

/-- `p->pNext`, of a block or of a free slot. -/
def pNext : DWORD := readWord m p

/-- `p->pFree` -/
def pFree : DWORD := readWord m (p + BitVec.ofNat 32 4)

/-- `p->usedCount` -/
def usedCount : DWORD := readWord m (p + BitVec.ofNat 32 8)

def setNext (v : DWORD) : DWORD → BYTE := store m p (wordBytes v)

def setFree (v : DWORD) : DWORD → BYTE := store m (p + BitVec.ofNat 32 4) (wordBytes v)

def setCount (v : DWORD) : DWORD → BYTE := store m (p + BitVec.ofNat 32 8) (wordBytes v)

end Fields

/-- `VirtualAlloc(NULL, MEMORY_BLOCK_SIZE, ...)` with the result `base`: a page of zeros that can be
executed. -/
def virtualAlloc (m : AddressSpace) (base : DWORD) : AddressSpace where
  bytes x := if pageOf x = pageOf base then 0 else m.bytes x
  protection := Function.update m.protection (pageOf base) PAGE_EXECUTE_READWRITE

/-- `VirtualFree(base, 0, MEM_RELEASE)` -/
def virtualFree (m : AddressSpace) (base : DWORD) : AddressSpace :=
  { m with protection := Function.update m.protection (pageOf base) 0 }

/-- There are no more pages, so that a list of blocks that ends does so in as many rounds. -/
def maxBlocks : Nat := 2 ^ 20

/-- The loop that links the slots from `pSlot` on, at most `fuel` rounds. -/
def buildSlots (pBlock : DWORD) : Nat → (DWORD → BYTE) → DWORD → Option (DWORD → BYTE)
  | 0, _, _ => none
  | fuel + 1, m, pSlot =>
    let m := setNext m pSlot (pFree m pBlock)
    let m := setFree m pBlock pSlot
    let pSlot := pSlot + 32
    if (pSlot - pBlock).toNat ≤ MEMORY_BLOCK_SIZE - MEMORY_SLOT_SIZE then
      buildSlots pBlock fuel m pSlot
    else some m

/-- The header and the slots of a new block, `next` being the head of the list. -/
def initBlock (m : DWORD → BYTE) (pBlock next : DWORD) : Option (DWORD → BYTE) :=
  let m := setFree m pBlock 0
  let m := setCount m pBlock 0
  (buildSlots pBlock (MEMORY_BLOCK_SIZE / MEMORY_SLOT_SIZE) m (pBlock + 32)).map fun m =>
    setNext m pBlock next

/-- A new block at the head of the list. -/
def newBlock (s : BufferState) (pBlock : DWORD) : Option BufferState :=
  let mem := virtualAlloc s.mem pBlock
  (initBlock mem.bytes pBlock s.g_pMemoryBlocks).map fun bytes =>
    ⟨{ mem with bytes := bytes }, pBlock⟩

/-- `GetMemoryBlock`; `base` is what `VirtualAlloc` would return. -/
def getMemoryBlock (s : BufferState) (base : Option DWORD) : Option (BufferState × DWORD) :=
  (walk (pNext s.mem.bytes) 0 (fun pBlock => pFree s.mem.bytes pBlock ≠ 0) maxBlocks 0
    s.g_pMemoryBlocks).bind fun r =>
      if r.2 ≠ 0 then some (s, r.2)
      else match base with
        | some pBlock => (newBlock s pBlock).map (·, pBlock)
        | none => some (s, 0)

/-- `AllocateBuffer` -/
def allocateBuffer (s : BufferState) (base : Option DWORD) : Option (BufferState × DWORD) :=
  (getMemoryBlock s base).map fun r =>
    let s := r.1
    let pBlock := r.2
    if pBlock = 0 then (s, 0)
    else
      let pSlot := pFree s.mem.bytes pBlock
      let m := setFree s.mem.bytes pBlock (pNext s.mem.bytes pSlot)
      let m := setCount m pBlock (usedCount m pBlock + 1)
      (⟨{ s.mem with bytes := m }, s.g_pMemoryBlocks⟩, pSlot)

/-- `pTargetBlock` in `FreeBuffer`. -/
def targetBlock (pBuffer : DWORD) : DWORD := pBuffer / 0x1000 * 0x1000

/-- The unused block `pBlock`, behind `pPrev`, is taken out of the list and freed. -/
def unlinkBlock (s : BufferState) (pPrev pBlock : DWORD) : BufferState :=
  let next := pNext s.mem.bytes pBlock
  if pPrev ≠ 0 then
    ⟨virtualFree { s.mem with bytes := setNext s.mem.bytes pPrev next } pBlock, s.g_pMemoryBlocks⟩
  else ⟨virtualFree s.mem pBlock, next⟩

/-- The released slot is put in front of the free slots of its block. -/
def releaseSlot (s : BufferState) (pBlock pBuffer : DWORD) : BufferState :=
  let m := setNext s.mem.bytes pBuffer (pFree s.mem.bytes pBlock)
  let m := setFree m pBlock pBuffer
  let m := setCount m pBlock (usedCount m pBlock - 1)
  ⟨{ s.mem with bytes := m }, s.g_pMemoryBlocks⟩

/-- `FreeBuffer` -/
def freeBuffer (s : BufferState) (pBuffer : DWORD) : Option BufferState :=
  (walk (pNext s.mem.bytes) 0 (fun pBlock => pBlock = targetBlock pBuffer) maxBlocks 0
    s.g_pMemoryBlocks).map fun r =>
      let pPrev := r.1
      let pBlock := r.2
      if pBlock = 0 then s
      else
        let s := releaseSlot s pBlock pBuffer
        if usedCount s.mem.bytes pBlock = 0 then unlinkBlock s pPrev pBlock else s

/-- At most `fuel` rounds of the loop of `UninitializeBuffer`. -/
def freeBlocks : Nat → AddressSpace → DWORD → Option AddressSpace
  | 0, _, _ => none
  | fuel + 1, m, pBlock =>
    if pBlock = 0 then some m
    else freeBlocks fuel (virtualFree m pBlock) (pNext m.bytes pBlock)

/-- `UninitializeBuffer` -/
def uninitializeBuffer (s : BufferState) : Option BufferState :=
  (freeBlocks maxBlocks s.mem s.g_pMemoryBlocks).map fun m => ⟨m, 0⟩

end Bossran
