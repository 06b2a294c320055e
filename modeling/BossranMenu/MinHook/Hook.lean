import BossranMenu.MinHook.Buffer
import BossranMenu.MinHook.Trampoline

/-!
# The hooks (`hook.c`, 32-bit code)

`MinHook` is the state that the library has: the slots, the heap, the table of hooks. The other
threads of the process are in it, because they are suspended and moved while code is overwritten.
A call runs while the spin lock is held, and is one function here. `HookEnv` is what the system
answers during the call. `none` as a result stands for a loop over the blocks that does not end.

The result of the second `VirtualProtect`, which the code does not look at, is taken to be as the
first. The table and the list of threads grow as `Nat`.
-/

namespace Bossran

open Memory

inductive MH_STATUS where
  | MH_OK
  | MH_ERROR_ALREADY_INITIALIZED
  | MH_ERROR_NOT_INITIALIZED
  | MH_ERROR_ALREADY_CREATED
  | MH_ERROR_NOT_CREATED
  | MH_ERROR_ENABLED
  | MH_ERROR_DISABLED
  | MH_ERROR_NOT_EXECUTABLE
  | MH_ERROR_UNSUPPORTED_FUNCTION
  | MH_ERROR_MEMORY_ALLOC
  | MH_ERROR_MEMORY_PROTECT
  deriving DecidableEq, Repr

def INITIAL_HOOK_CAPACITY : Nat := 32

def INITIAL_THREAD_CAPACITY : Nat := 128

def MH_ALL_HOOKS : DWORD := 0

/-- `HOOK_ENTRY`; `ips` is the first `nIP` entries of `oldIPs` and `newIPs`. -/
structure HookEntry where
  pTarget : DWORD
  pDetour : DWORD
  pTrampoline : DWORD
  backup : List BYTE
  patchAbove : Bool
  isEnabled : Bool
  queueEnable : Bool
  ips : List (Nat × Nat)
  deriving DecidableEq

/-- `g_hooks`; `pItems` is `none` for `NULL`, and its length is the field `size`. -/
structure HookTable where
  pItems : Option (List HookEntry)
  capacity : Nat

def HookTable.items (t : HookTable) : List HookEntry := t.pItems.getD []

def HookTable.set (t : HookTable) (items : List HookEntry) : HookTable :=
  { t with pItems := t.pItems.map fun _ => items }

/-! ## The table -/

/-- `FindHookEntry`; `none` is `INVALID_HOOK_POS`. -/
def findHookEntry (t : HookTable) (pTarget : DWORD) : Option Nat :=
  t.items.findIdx? fun h => h.pTarget = pTarget

/-- The entry that `FindHookEntry` finds, with its position. -/
def entryOf (t : HookTable) (pTarget : DWORD) : Option (Nat × HookEntry) :=
  (findHookEntry t pTarget).bind fun pos => t.items[pos]?.map (pos, ·)

/-- `AddHookEntry`, and the entry that the caller fills in. `false` is `NULL`. -/
def addHookEntry (t : HookTable) (heapAlloc : Bool) (entry : HookEntry) : HookTable × Bool :=
  match t.pItems with
  | none =>
    if heapAlloc then (⟨some [entry], INITIAL_HOOK_CAPACITY⟩, true)
    else (⟨none, INITIAL_HOOK_CAPACITY⟩, false)
  | some items =>
    if t.capacity ≤ items.length then
      if heapAlloc then (⟨some (items ++ [entry]), t.capacity * 2⟩, true) else (t, false)
    else (⟨some (items ++ [entry]), t.capacity⟩, true)

/-- The last entry takes the place of the one at `pos`. -/
def removeAt (items : List HookEntry) (pos : Nat) : List HookEntry :=
  if pos < items.length - 1 then
    match items.getLast? with
    | some last => (items.set pos last).dropLast
    | none => items
  else items.dropLast

/-- `DeleteHookEntry` -/
def deleteHookEntry (t : HookTable) (pos : Nat) (heapAlloc : Bool) : HookTable :=
  let items := removeAt t.items pos
  if INITIAL_HOOK_CAPACITY ≤ t.capacity / 2 ∧ items.length ≤ t.capacity / 2 then
    if heapAlloc then { t.set items with capacity := t.capacity / 2 } else t.set items
  else t.set items

/-! ## The threads -/

inductive FreezeAction where
  | ACTION_DISABLE
  | ACTION_ENABLE
  | ACTION_APPLY_QUEUED

/-- Another thread of the process. -/
structure OtherThread where
  eip : DWORD
  suspendCount : Nat

/-- `THREADENTRY32` -/
structure ThreadEntry where
  dwSize : Nat
  th32OwnerProcessID : DWORD
  th32ThreadID : DWORD

/-- What the system answers to `Freeze` and `Unfreeze`, by the number of the call to the heap and
by the identifier of the thread. -/
structure FreezeEnv where
  processId : DWORD
  threadId : DWORD
  /-- The entries of the snapshot, if one was taken. -/
  snapshot : Option (List ThreadEntry)
  heapAlloc : Nat → Bool
  openThread : DWORD → Bool
  getThreadContext : DWORD → Bool
  setThreadContext : DWORD → Bool
  /-- `OpenThread` in `Unfreeze` -/
  reopenThread : DWORD → Bool

/-- `FROZEN_THREADS` -/
structure FrozenThreads where
  pItems : Option (List DWORD)
  capacity : Nat

/-- The entry has an owner, and is of another thread of the process. -/
def ThreadEntry.isOther (env : FreezeEnv) (te : ThreadEntry) : Bool :=
  16 ≤ te.dwSize && te.th32OwnerProcessID = env.processId && te.th32ThreadID ≠ env.threadId

/-- The loop over the entries of the snapshot; `calls` counts the calls to the heap. -/
def collectThreads (env : FreezeEnv) : List ThreadEntry → Nat → FrozenThreads → FrozenThreads
  | [], _, t => t
  | te :: tes, calls, t =>
    if te.isOther env then
      match t.pItems with
      | none =>
        if env.heapAlloc calls then
          collectThreads env tes (calls + 1) ⟨some [te.th32ThreadID], INITIAL_THREAD_CAPACITY⟩
        else ⟨none, INITIAL_THREAD_CAPACITY⟩
      | some items =>
        if t.capacity ≤ items.length then
          if env.heapAlloc calls then
            collectThreads env tes (calls + 1) ⟨some (items ++ [te.th32ThreadID]), t.capacity * 2⟩
          else t
        else collectThreads env tes calls ⟨some (items ++ [te.th32ThreadID]), t.capacity⟩
    else collectThreads env tes calls t

/-- `EnumerateThreads`: the identifiers in `pItems`. -/
def enumerateThreads (env : FreezeEnv) : List DWORD :=
  (collectThreads env (env.snapshot.getD []) 0 ⟨none, 0⟩).pItems.getD []

/-- `FindOldIP` -/
def findOldIP (h : HookEntry) (ip : DWORD) : DWORD :=
  if h.patchAbove ∧ ip = h.pTarget - 5 then h.pTarget
  else match h.ips.find? fun p => ip = h.pTrampoline + BitVec.ofNat 32 p.2 with
    | some p => h.pTarget + BitVec.ofNat 32 p.1
    | none => 0

/-- `FindNewIP` -/
def findNewIP (h : HookEntry) (ip : DWORD) : DWORD :=
  match h.ips.find? fun p => ip = h.pTarget + BitVec.ofNat 32 p.1 with
  | some p => h.pTrampoline + BitVec.ofNat 32 p.2
  | none => 0

/-- `enable` in the loop of `ProcessThreadIPs` -/
def FreezeAction.enable (h : HookEntry) : FreezeAction → Bool
  | .ACTION_DISABLE => false
  | .ACTION_ENABLE => true
  | .ACTION_APPLY_QUEUED => h.queueEnable

/-- One round of the loop of `ProcessThreadIPs`. -/
def processHook (action : FreezeAction) (eip : DWORD) (h : HookEntry) : DWORD :=
  if h.isEnabled = action.enable h then eip
  else
    let ip := if action.enable h then findNewIP h eip else findOldIP h eip
    if ip ≠ 0 then ip else eip

/-- `ProcessThreadIPs`; `pos` is `none` for `ALL_HOOKS_POS`. -/
def processThreadIPs (items : List HookEntry) (pos : Option Nat) (action : FreezeAction)
    (eip : DWORD) : DWORD :=
  (match pos with
    | none => items
    | some pos => items[pos]?.toList).foldl (processHook action) eip

/-- `MAXIMUM_SUSPEND_COUNT` -/
def MAXIMUM_SUSPEND_COUNT : Nat := 127

def suspendThread (t : OtherThread) : OtherThread :=
  if t.suspendCount < MAXIMUM_SUSPEND_COUNT then { t with suspendCount := t.suspendCount + 1 }
  else t

def resumeThread (t : OtherThread) : OtherThread := { t with suspendCount := t.suspendCount - 1 }

/-- A thread in the loop of `Freeze`. -/
def freezeThread (env : FreezeEnv) (items : List HookEntry) (pos : Option Nat)
    (action : FreezeAction) (threads : DWORD → OtherThread) (id : DWORD) : DWORD → OtherThread :=
  if env.openThread id then
    let t := suspendThread (threads id)
    Function.update threads id (
      if env.getThreadContext id ∧ env.setThreadContext id then
        { t with eip := processThreadIPs items pos action t.eip }
      else t)
  else threads

/-- A thread in the loop of `Unfreeze`. -/
def unfreezeThread (env : FreezeEnv) (threads : DWORD → OtherThread) (id : DWORD) :
    DWORD → OtherThread :=
  if env.reopenThread id then Function.update threads id (resumeThread (threads id)) else threads

/-! ## The state -/

structure MinHook where
  buf : BufferState
  /-- `g_hHeap != NULL` -/
  g_hHeap : Bool
  g_hooks : HookTable
  threads : DWORD → OtherThread

/-- What the system answers during a call. -/
structure HookEnv where
  heapCreate : Bool
  /-- The new page, if a block is needed. -/
  virtualAlloc : Option DWORD
  /-- Is there room for the entries? -/
  heapAlloc : Bool
  /-- `VirtualProtect` for the hook at each position. -/
  virtualProtect : Nat → Bool
  freeze : FreezeEnv

namespace MinHook

variable (s : MinHook) (env : HookEnv)

def items : List HookEntry := s.g_hooks.items

/-- The memory and the entries, after code was overwritten. -/
def setPatched (mem : AddressSpace) (items : List HookEntry) : MinHook :=
  { s with buf.mem := mem, g_hooks := s.g_hooks.set items }

/-- `Freeze` -/
def freeze (pos : Option Nat) (action : FreezeAction) : MinHook :=
  let freezeAll := (enumerateThreads env.freeze).foldl (freezeThread env.freeze s.items pos action)
  { s with threads := freezeAll s.threads }

/-- `Unfreeze` -/
def unfreeze : MinHook :=
  { s with threads := (enumerateThreads env.freeze).foldl (unfreezeThread env.freeze) s.threads }

end MinHook

/-! ## Patching -/

namespace HookEntry

variable (h : HookEntry)

def pPatchTarget : DWORD := if h.patchAbove then h.pTarget - 5 else h.pTarget

def patchSize : Nat := if h.patchAbove then sizeofJmpRel + sizeofJmpRelShort else sizeofJmpRel

end HookEntry

/-- `EnableHookLL` for the entry `h`; `protect` is what the first `VirtualProtect` answers. -/
def enableHookLL (protect : Bool) (m : AddressSpace) (h : HookEntry) (enable : Bool) :
    AddressSpace × HookEntry × MH_STATUS :=
  if !protect then (m, h, .MH_ERROR_MEMORY_PROTECT)
  else
    let (m, oldProtect) := virtualProtect m h.pPatchTarget h.patchSize PAGE_EXECUTE_READWRITE
    let bytes :=
      if enable then
        let b := store m.bytes h.pPatchTarget (jmpRel 0xE9 (h.pDetour - (h.pPatchTarget + 5)))
        if h.patchAbove then store b h.pTarget [0xEB, 0xF9] else b
      else store m.bytes h.pPatchTarget h.backup
    let m := (virtualProtect { m with bytes := bytes } h.pPatchTarget h.patchSize oldProtect).1
    (m, { h with isEnabled := enable, queueEnable := enable }, .MH_OK)

/-- The loop of `EnableAllHooksLL` and of `MH_ApplyQueued`, from the position `pos` on. It ends at
the first entry that fails. -/
def enableRest (protect : Nat → Bool) (want : HookEntry → Bool) :
    Nat → AddressSpace → List HookEntry → AddressSpace × List HookEntry × MH_STATUS
  | _, m, [] => (m, [], .MH_OK)
  | pos, m, h :: hs =>
    if h.isEnabled = want h then
      let (m, hs, status) := enableRest protect want (pos + 1) m hs
      (m, h :: hs, status)
    else
      match enableHookLL (protect pos) m h (want h) with
      | (m, h, .MH_OK) =>
        let (m, hs, status) := enableRest protect want (pos + 1) m hs
        (m, h :: hs, status)
      | (m, h, status) => (m, h :: hs, status)

namespace MinHook

variable (s : MinHook) (env : HookEnv)

/-- Every hook as `want` says. The code looks for the first entry that is not, and begins there:
the entries in front of it are passed over. -/
def enableHooks (want : HookEntry → Bool) (action : FreezeAction) : MinHook × MH_STATUS :=
  if s.items.all fun h => h.isEnabled = want h then (s, .MH_OK)
  else
    let s := s.freeze env none action
    let (mem, items, status) := enableRest env.virtualProtect want 0 s.buf.mem s.items
    ((s.setPatched mem items).unfreeze env, status)

/-- `EnableAllHooksLL` -/
def enableAllHooksLL (enable : Bool) : MinHook × MH_STATUS :=
  s.enableHooks env (fun _ => enable) (if enable then .ACTION_ENABLE else .ACTION_DISABLE)

/-- The entry at `pos` is enabled or disabled while the other threads are frozen. -/
def enableOne (pos : Nat) (h : HookEntry) (action : FreezeAction) (enable : Bool) :
    MinHook × MH_STATUS :=
  let s := s.freeze env (some pos) action
  let (mem, h, status) := enableHookLL (env.virtualProtect pos) s.buf.mem h enable
  ((s.setPatched mem (s.items.set pos h)).unfreeze env, status)

/-! ## The calls -/

def MH_Initialize : MinHook × MH_STATUS :=
  if !s.g_hHeap then
    if env.heapCreate then ({ s with g_hHeap := true }, .MH_OK) else (s, .MH_ERROR_MEMORY_ALLOC)
  else (s, .MH_ERROR_ALREADY_INITIALIZED)

def MH_Uninitialize : Option (MinHook × MH_STATUS) :=
  if s.g_hHeap then
    match s.enableAllHooksLL env false with
    | (s, .MH_OK) => (uninitializeBuffer s.buf).map fun buf =>
        ({ s with buf := buf, g_hHeap := false, g_hooks := ⟨none, 0⟩ }, .MH_OK)
    | (s, status) => some (s, status)
  else some (s, .MH_ERROR_NOT_INITIALIZED)

/-- The entry for a trampoline that was made, with the bytes of the target that it saves. -/
def newEntry (m : AddressSpace) (pTarget pDetour pBuffer : DWORD) (ct : Trampoline) :
    HookEntry where
  pTarget := pTarget
  pDetour := pDetour
  pTrampoline := pBuffer
  backup :=
    if ct.patchAbove then load m.bytes (pTarget - 5) (sizeofJmpRel + sizeofJmpRelShort)
    else load m.bytes pTarget sizeofJmpRel
  patchAbove := ct.patchAbove
  isEnabled := false
  queueEnable := false
  ips := ct.ips

/-- `MH_CreateHook`, after the slot `pBuffer` was allocated. -/
def createInSlot (pTarget pDetour pBuffer : DWORD) : Option (MinHook × MH_STATUS) :=
  let r := createTrampolineFunction s.buf.mem pTarget pBuffer
  let s := { s with buf.mem := r.1 }
  match r.2 with
  | some ct =>
    let (g_hooks, added) := addHookEntry s.g_hooks env.heapAlloc
      (newEntry r.1 pTarget pDetour pBuffer ct)
    let s := { s with g_hooks := g_hooks }
    if added then some (s, .MH_OK)
    else (freeBuffer s.buf pBuffer).map fun buf => ({ s with buf := buf }, .MH_ERROR_MEMORY_ALLOC)
  | none =>
    (freeBuffer s.buf pBuffer).map fun buf =>
      ({ s with buf := buf }, .MH_ERROR_UNSUPPORTED_FUNCTION)

/-- `MH_CreateHook`; on success `*ppOriginal` is the trampoline of the new entry. -/
def MH_CreateHook (pTarget pDetour : DWORD) : Option (MinHook × MH_STATUS) :=
  if s.g_hHeap then
    if isExecutableAddress s.buf.mem pTarget && isExecutableAddress s.buf.mem pDetour then
      match findHookEntry s.g_hooks pTarget with
      | none =>
        (allocateBuffer s.buf env.virtualAlloc).bind fun (buf, pBuffer) =>
          let s := { s with buf := buf }
          if pBuffer ≠ 0 then s.createInSlot env pTarget pDetour pBuffer
          else some (s, .MH_ERROR_MEMORY_ALLOC)
      | some _ => some (s, .MH_ERROR_ALREADY_CREATED)
    else some (s, .MH_ERROR_NOT_EXECUTABLE)
  else some (s, .MH_ERROR_NOT_INITIALIZED)

/-- The end of `MH_RemoveHook`: the slot and the entry go. -/
def dropEntry (pos : Nat) (pTrampoline : DWORD) : Option (MinHook × MH_STATUS) :=
  (freeBuffer s.buf pTrampoline).map fun buf =>
    ({ s with buf := buf, g_hooks := deleteHookEntry s.g_hooks pos env.heapAlloc }, .MH_OK)

def MH_RemoveHook (pTarget : DWORD) : Option (MinHook × MH_STATUS) :=
  if s.g_hHeap then
    match entryOf s.g_hooks pTarget with
    | some (pos, h) =>
      if h.isEnabled then
        match s.enableOne env pos h .ACTION_DISABLE false with
        | (s, .MH_OK) => s.dropEntry env pos h.pTrampoline
        | (s, status) => some (s, status)
      else s.dropEntry env pos h.pTrampoline
    | none => some (s, .MH_ERROR_NOT_CREATED)
  else some (s, .MH_ERROR_NOT_INITIALIZED)

/-- `EnableHook`. The action for a single hook is `ACTION_ENABLE`, also when it is disabled. -/
def enableHook (pTarget : DWORD) (enable : Bool) : MinHook × MH_STATUS :=
  if s.g_hHeap then
    if pTarget = MH_ALL_HOOKS then s.enableAllHooksLL env enable
    else
      match entryOf s.g_hooks pTarget with
      | some (pos, h) =>
        if h.isEnabled ≠ enable then s.enableOne env pos h .ACTION_ENABLE enable
        else (s, if enable then .MH_ERROR_ENABLED else .MH_ERROR_DISABLED)
      | none => (s, .MH_ERROR_NOT_CREATED)
  else (s, .MH_ERROR_NOT_INITIALIZED)

def MH_EnableHook (pTarget : DWORD) : MinHook × MH_STATUS := s.enableHook env pTarget true

def MH_DisableHook (pTarget : DWORD) : MinHook × MH_STATUS := s.enableHook env pTarget false

/-- `QueueHook` -/
def queueHook (pTarget : DWORD) (queueEnable : Bool) : MinHook × MH_STATUS :=
  if s.g_hHeap then
    if pTarget = MH_ALL_HOOKS then
      ({ s with g_hooks := s.g_hooks.set (s.items.map ({ · with queueEnable := queueEnable })) },
        .MH_OK)
    else
      match entryOf s.g_hooks pTarget with
      | some (pos, h) =>
        let items := s.items.set pos { h with queueEnable := queueEnable }
        ({ s with g_hooks := s.g_hooks.set items }, .MH_OK)
      | none => (s, .MH_ERROR_NOT_CREATED)
  else (s, .MH_ERROR_NOT_INITIALIZED)

def MH_QueueEnableHook (pTarget : DWORD) : MinHook × MH_STATUS := s.queueHook pTarget true

def MH_QueueDisableHook (pTarget : DWORD) : MinHook × MH_STATUS := s.queueHook pTarget false

def MH_ApplyQueued : MinHook × MH_STATUS :=
  if s.g_hHeap then s.enableHooks env HookEntry.queueEnable .ACTION_APPLY_QUEUED
  else (s, .MH_ERROR_NOT_INITIALIZED)

end MinHook

end Bossran
