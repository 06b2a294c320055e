import BossranMenu.MinHook.HookSpec

/-!
# Runs of the hooking library (`hook.c`)

`mhMachine m₀` is the library in a process whose memory is `m₀` before the first call. An action is
a call with what the system answers. `mhOk` is what the callers promise, and the library does not
check: the code of a target was in use before, and lies apart from the windows of the other hooks.

`Installed` is the invariant: the blocks hold the trampolines of the table, and the code is that of
`m₀` with the jumps of the enabled hooks. `Installed.call`: each call ends, keeps it, and does what
`HookSpec` says.
-/

namespace Bossran

open Memory

/-- The library, loaded into the process with the memory `m₀`. -/
def mhMachine (m₀ : AddressSpace) : Transition.Machine MinHook (MhCall × HookEnv) where
  init s := s.buf = ⟨m₀, 0⟩ ∧ s.g_hHeap = false ∧ s.g_hooks = ⟨none, 0⟩
  step s a := (mhCall s a.2 a.1).map Prod.fst

theorem mhMachine_step {m₀ : AddressSpace} {s : MinHook} {c : MhCall} {env : HookEnv} :
    (mhMachine m₀).step s (c, env) = (mhCall s env c).map Prod.fst := rfl

/-- The code of the target does not wrap around the address space. -/
def InSpace (pTarget : DWORD) : Prop := 5 ≤ pTarget.toNat ∧ pTarget.toNat + 19 < 2 ^ 32

/-- The promise for a target: the code that is read for it was in use before the first call, and
lies apart from what the hooks of other targets overwrite. The library does not check it. -/
structure Hookable (m₀ : AddressSpace) (s : MinHook) (pTarget : DWORD) : Prop where
  space : InSpace pTarget
  loaded : ∀ x ∈ targetCode pTarget, Loaded m₀ (pageOf x)
  apart : ∀ h ∈ s.items, h.pTarget ≠ pTarget → h.window.Disjoint (targetCode pTarget)

instance (m₀ : AddressSpace) (s : MinHook) (pTarget : DWORD) :
    Decidable (Hookable m₀ s pTarget) :=
  decidable_of_iff ((5 ≤ pTarget.toNat ∧ pTarget.toNat + 19 < 2 ^ 32) ∧
      (∀ k < 25, m₀.protection (pageOf (pTarget - 5 + BitVec.ofNat 32 k)) ≠ 0) ∧
      ∀ h ∈ s.items, h.pTarget ≠ pTarget → h.window.Disjoint (targetCode pTarget))
    ⟨fun h => ⟨h.1, Region.forall_mem.mpr h.2.1, h.2.2⟩,
      fun h => ⟨h.space, Region.forall_mem.mp h.loaded, h.apart⟩⟩

/-- `VirtualAlloc` returns pages that are not in use, and a target can be hooked. -/
def mhOk (m₀ : AddressSpace) (s : MinHook) (a : MhCall × HookEnv) : Prop :=
  (∀ b, a.2.virtualAlloc = some b → Vacant s.buf.mem b) ∧
    ∀ pTarget pDetour, a.1 = .MH_CreateHook pTarget pDetour → Hookable m₀ s pTarget

instance (m₀ : AddressSpace) (s : MinHook) :
    (c : MhCall) → Decidable (∀ t d, c = .MH_CreateHook t d → Hookable m₀ s t)
  | .MH_CreateHook pTarget pDetour => decidable_of_iff (Hookable m₀ s pTarget)
      ⟨fun h _ _ heq => (MhCall.MH_CreateHook.inj heq).1 ▸ h, fun h => h pTarget pDetour rfl⟩
  | .MH_Initialize | MhCall.MH_Uninitialize | .MH_RemoveHook _ | .EnableHook _ _ | .QueueHook _ _
  | .MH_ApplyQueued => isTrue nofun

instance (m₀ : AddressSpace) (s : MinHook) (a : MhCall × HookEnv) : Decidable (mhOk m₀ s a) :=
  @instDecidableAnd _ _ (decidableVacant s.buf.mem a.2.virtualAlloc) inferInstance

/-- No trampoline can be made for the target, in code that is as in `m` where `m₀` was in use. -/
def Unsupported (m₀ m : AddressSpace) (pTarget : DWORD) : Prop :=
  ∃ m' p, SameLoaded m₀ m m' ∧ SlotApart pTarget p ∧ (createTrampolineFunction m' pTarget p).2 = none

/-! ## The invariant -/

/-- The trampoline of an entry stands in its slot, for the code of `m₀`. -/
structure Made (m₀ m : AddressSpace) (h : HookEntry) : Prop where
  space : InSpace h.pTarget
  slot : SlotApart h.pTarget h.pTrampoline
  loaded : ∀ x ∈ targetCode h.pTarget, Loaded m₀ (pageOf x)
  stands : Stands m₀.bytes m.bytes h.pTarget h.pTrampoline h.ips

/-- The state after any run. -/
structure Installed (m₀ : AddressSpace) (s : MinHook) (bs : List Block) : Prop where
  slots : Slots m₀ s.buf (s.items.map HookEntry.pTrampoline) bs
  code : Code m₀ s.buf.mem s.items
  made : ∀ h ∈ s.items, Made m₀ s.buf.mem h
  targets : (s.items.map HookEntry.pTarget).Nodup
  sized : Sized s.g_hooks
  idle : s.g_hHeap = false → s.g_hooks.pItems = none

theorem Made.congr {m₀ m m' : AddressSpace} {h : HookEntry} (hm : Made m₀ m h)
    (hsame : ∀ x ∈ (⟨h.pTrampoline, 32⟩ : Region 32), m'.bytes x = m.bytes x) : Made m₀ m' h :=
  ⟨hm.space, hm.slot, hm.loaded, hm.stands.congr hsame⟩

theorem Made.of_core {m₀ m : AddressSpace} {h h' : HookEntry} (hm : Made m₀ m h)
    (hcore : h'.core = h.core) : Made m₀ m h' := by
  have hc : Made m₀ m h.core := ⟨hm.space, hm.slot, hm.loaded, hm.stands⟩
  rw [← hcore] at hc
  exact ⟨hc.space, hc.slot, hc.loaded, hc.stands⟩

/-! ## Lists with the same hooks -/

section Core

variable {m₀ m : AddressSpace} {hs hs' : List HookEntry}

theorem map_pTarget (h : hs'.map HookEntry.core = hs.map HookEntry.core) :
    hs'.map HookEntry.pTarget = hs.map HookEntry.pTarget := by
  have hmap := congrArg (List.map HookEntry.pTarget) h
  rwa [List.map_map, List.map_map] at hmap

theorem map_pTrampoline (h : hs'.map HookEntry.core = hs.map HookEntry.core) :
    hs'.map HookEntry.pTrampoline = hs.map HookEntry.pTrampoline := by
  have hmap := congrArg (List.map HookEntry.pTrampoline) h
  rwa [List.map_map, List.map_map] at hmap

theorem made_of_core (h : hs'.map HookEntry.core = hs.map HookEntry.core)
    (hm : ∀ g ∈ hs, Made m₀ m g) : ∀ g ∈ hs', Made m₀ m g := by
  intro g hg
  have hmem : g.core ∈ hs.map HookEntry.core := h ▸ List.mem_map_of_mem hg
  obtain ⟨g', hg', hcore⟩ := List.mem_map.mp hmem
  exact (hm g' hg').of_core hcore.symm

theorem enableRest_core {protect : Nat → Bool} {want : HookEntry → Bool} {pos : Nat}
    {m' : AddressSpace} {status : MH_STATUS} (hb : ∀ h ∈ hs, h.backup.length = h.patchSize)
    (hr : enableRest protect want pos m hs = (m', hs', status)) :
    hs'.map HookEntry.core = hs.map HookEntry.core := by
  obtain ⟨k, rfl, -⟩ := enableRest_prefix hb hr
  have hcore : (HookEntry.core ∘ HookEntry.switch want) = HookEntry.core := by
    funext h
    exact h.switch_core
  rw [List.map_append, List.map_map, hcore, ← List.map_append, List.take_append_drop]

end Core

namespace Installed

variable {m₀ : AddressSpace} {s : MinHook} {bs : List Block} {env : HookEnv} {h : HookEntry}

theorem init (hs : (mhMachine m₀).init s) : Installed m₀ s [] := by
  obtain ⟨buf, heap, hooks, threads⟩ := s
  obtain ⟨rfl, rfl, rfl⟩ : buf = ⟨m₀, 0⟩ ∧ heap = false ∧ hooks = ⟨none, 0⟩ := hs
  exact ⟨Slots.init m₀, Code.nil fun _ _ => rfl, nofun, List.nodup_nil, ⟨Nat.zero_le _, nofun⟩,
    fun _ => rfl⟩

/-- The other threads have no part in it. -/
theorem threads (hI : Installed m₀ s bs) (threads : DWORD → OtherThread) :
    Installed m₀ { s with threads := threads } bs :=
  ⟨hI.slots, hI.code, hI.made, hI.targets, hI.sized, hI.idle⟩

/-- A slot lies apart from the code. -/
theorem slot_code (hI : Installed m₀ s bs) (hh : h ∈ s.items) {x : DWORD}
    (hx : x ∈ (⟨h.pTrampoline, 32⟩ : Region 32)) : ¬ Loaded m₀ (pageOf x) :=
  hI.slots.not_loaded (List.mem_map_of_mem hh) hx

/-- Code was overwritten, and the flags of the hooks were set. -/
theorem setPatched (hI : Installed m₀ s bs) {mem : AddressSpace} {items : List HookEntry}
    (hcore : items.map HookEntry.core = s.items.map HookEntry.core) (hc : Code m₀ mem items)
    (honly : CodeOnly m₀ s.buf.mem mem) :
    Installed m₀ (s.setPatched mem items) bs ∧ (s.setPatched mem items).items = items := by
  have hlen : items.length = s.items.length := by
    have hlen := congrArg List.length hcore
    rwa [List.length_map, List.length_map] at hlen
  have hset : (s.setPatched mem items).items = items := items_set_of_length hlen
  refine ⟨⟨?_, ?_, ?_, ?_, hI.sized.set hlen, fun hheap => ?_⟩, hset⟩
  · rw [hset, map_pTrampoline hcore]
    exact hI.slots.patch honly.bytes honly.protection (honly.loaded hI.slots.loaded)
  · rw [hset]
    exact hc
  · rw [hset]
    refine made_of_core hcore fun g hg => (hI.made g hg).congr fun x hx => ?_
    exact honly.bytes x (hI.slot_code hg hx)
  · rw [hset, map_pTarget hcore]
    exact hI.targets
  · show s.g_hooks.pItems.map _ = none
    rw [hI.idle hheap]
    rfl

theorem backup_length (hI : Installed m₀ s bs) : ∀ h ∈ s.items, h.backup.length = h.patchSize :=
  fun h hh => (hI.code.saved h hh).length

/-- `EnableAllHooksLL`, and the loop of `MH_ApplyQueued`. -/
theorem enableHooks (hI : Installed m₀ s bs) (env : HookEnv) (want : HookEntry → Bool)
    (action : FreezeAction) :
    Installed m₀ (s.enableHooks env want action).1 bs ∧
    (s.enableHooks env want action).1.g_hHeap = s.g_hHeap ∧
    ∃ k, (s.enableHooks env want action).1.items =
        (s.items.take k).map (HookEntry.switch want) ++ s.items.drop k ∧
      ((s.enableHooks env want action).2 = .MH_OK ∧ s.items.length ≤ k ∨
        (s.enableHooks env want action).2 = .MH_ERROR_MEMORY_PROTECT ∧
        ∃ h, s.items[k]? = some h ∧ h.isEnabled ≠ want h ∧ ¬ env.virtualProtect k) := by
  unfold MinHook.enableHooks
  split
  · rename_i hall
    refine ⟨hI, rfl, s.items.length, ?_, .inl ⟨rfl, Nat.le_refl _⟩⟩
    rw [List.take_length, List.drop_length, List.append_nil]
    have hid : s.items.map (HookEntry.switch want) = s.items.map id := by
      refine List.map_congr_left fun h hh => if_pos ?_
      simpa using List.all_eq_true.mp hall h hh
    rw [hid, List.map_id]
  · rename_i hall
    dsimp only
    generalize hrest : enableRest env.virtualProtect want 0 (s.freeze env none action).buf.mem
      (s.freeze env none action).items = r
    obtain ⟨mem, items, status⟩ := r
    obtain ⟨hc, honly⟩ := (show Code m₀ s.buf.mem ([] ++ s.items) from hI.code).enableRest hrest
    have hcore := enableRest_core hI.backup_length hrest
    obtain ⟨k, hk, hst⟩ := enableRest_prefix hI.backup_length hrest
    obtain ⟨hI', hitems⟩ := hI.setPatched hcore hc honly
    refine ⟨hI'.threads _, rfl, k, hitems.trans hk, ?_⟩
    rwa [Nat.zero_add] at hst

/-- One hook is enabled or disabled. -/
theorem enableOne (hI : Installed m₀ s bs) (env : HookEnv) {pre post : List HookEntry}
    (hitems : s.items = pre ++ h :: post) (action : FreezeAction) (enable : Bool) :
    Installed m₀ (s.enableOne env pre.length h action enable).1 bs ∧
    ((s.enableOne env pre.length h action enable).2 = .MH_OK ∧
        (s.enableOne env pre.length h action enable).1.items = pre ++ h.set enable :: post ∨
      (s.enableOne env pre.length h action enable).2 = .MH_ERROR_MEMORY_PROTECT ∧
        (s.enableOne env pre.length h action enable).1.items = s.items ∧ env.ProtectFails) ∧
    (s.enableOne env pre.length h action enable).1.g_hHeap = s.g_hHeap := by
  have hc := hI.code
  rw [hitems] at hc
  unfold MinHook.enableOne
  dsimp only
  generalize hone : enableHookLL (env.virtualProtect pre.length)
    (s.freeze env (some pre.length) action).buf.mem h enable = r
  obtain ⟨mem, h', status⟩ := r
  obtain ⟨hcases, hc', honly⟩ := hc.enableHookLL hone
  have hset : (s.freeze env (some pre.length) action).items.set pre.length h' =
      pre ++ h' :: post := by
    have hsame : (s.freeze env (some pre.length) action).items = s.items := rfl
    rw [hsame, hitems, List.set_append_right _ _ (Nat.le_refl _), Nat.sub_self, List.set_cons_zero]
  rw [hset]
  have hcore : (pre ++ h' :: post).map HookEntry.core = s.items.map HookEntry.core := by
    have hh' : h'.core = h.core := by
      obtain ⟨-, -, rfl, -⟩ | ⟨-, -, rfl, -⟩ := hcases
      · exact h.set_core enable
      · rfl
    rw [hitems, List.map_append, List.map_append, List.map_cons, List.map_cons, hh']
  obtain ⟨hI', hnew⟩ := hI.setPatched hcore hc' honly
  refine ⟨hI'.threads _, ?_, rfl⟩
  obtain ⟨hst, -, rfl, -⟩ | ⟨hst, hfail, rfl, -⟩ := hcases
  · exact .inl ⟨hst, hnew⟩
  · exact .inr ⟨hst, hnew.trans hitems.symm, pre.length, Bool.eq_false_iff.mpr hfail⟩

/-- The entry of a hook that is disabled goes, and its slot. -/
theorem dropEntry (hI : Installed m₀ s bs) (env : HookEnv) {pre post : List HookEntry}
    (hitems : s.items = pre ++ h :: post) (hd : ¬ h.isEnabled) :
    ∃ s' bs', s.dropEntry env pre.length h.pTrampoline = some (s', .MH_OK) ∧
      Installed m₀ s' bs' ∧ s'.items.Perm (pre ++ post) ∧ s'.g_hHeap = s.g_hHeap := by
  have hne : s.items ≠ [] := by
    rw [hitems]
    exact List.append_ne_nil_of_right_ne_nil _ (List.cons_ne_nil _ _)
  have hmem : h ∈ s.items := hitems ▸ List.mem_append_right _ (List.mem_cons_self ..)
  have hpItems := pItems_ne_none hne
  obtain ⟨buf, bs', hfree, hslots, hk⟩ := hI.slots.free (List.mem_map_of_mem hmem)
  have hperm : s.items.Perm (h :: (pre ++ post)) := by
    rw [hitems]
    exact List.perm_middle
  -- the new state
  have hdel : (deleteHookEntry s.g_hooks pre.length env.heapAlloc).items =
      removeAt s.items pre.length := deleteHookEntry_items hpItems
  have hleft : (removeAt s.items pre.length).Perm (pre ++ post) := by
    rw [hitems]
    exact removeAt_perm
  have hrest := hI.slots.same_loaded hslots.fresh hk
  have hsub : ∀ g ∈ pre ++ post, g ∈ s.items := fun g hg =>
    hperm.mem_iff.mpr (List.mem_cons_of_mem _ hg)
  have hlive : ((removeAt s.items pre.length).map HookEntry.pTrampoline).Perm
      ((s.items.map HookEntry.pTrampoline).erase h.pTrampoline) := by
    refine (hleft.map _).trans (List.cons_perm_iff_perm_erase.mp ?_).2
    exact (hperm.map HookEntry.pTrampoline).symm
  have hrun : s.dropEntry env pre.length h.pTrampoline = some ({ s with
      buf := buf, g_hooks := deleteHookEntry s.g_hooks pre.length env.heapAlloc }, .MH_OK) := by
    rw [MinHook.dropEntry, hfree]
    rfl
  have hnew : (deleteHookEntry s.g_hooks pre.length env.heapAlloc).items.Perm (pre ++ post) := by
    rw [hdel]
    exact hleft
  refine ⟨{ s with
    buf := buf, g_hooks := deleteHookEntry s.g_hooks pre.length env.heapAlloc }, bs', hrun, ?_,
    hnew, rfl⟩
  constructor
  case slots =>
    show Slots m₀ buf ((deleteHookEntry s.g_hooks pre.length env.heapAlloc).items.map _) bs'
    rw [hdel]
    exact ⟨hslots.pool, hslots.live.trans hlive.symm, hslots.used, hslots.fresh, hslots.loaded,
      hslots.vacant⟩
  case code =>
    show Code m₀ buf.mem (deleteHookEntry s.g_hooks pre.length env.heapAlloc).items
    rw [hdel]
    exact (((hI.code.perm hperm).drop hd).perm hleft.symm).congr hrest.bytes
  case made =>
    intro g hg
    have hg' : g ∈ removeAt s.items pre.length := hdel ▸ hg
    have hold := hsub g (hleft.mem_iff.mp hg')
    refine (hI.made g hold).congr (hk.slots g.pTrampoline ?_ ?_)
    · exact hI.slots.mem_live.mp (List.mem_map_of_mem hold)
    · exact hslots.mem_live.mp (hlive.mem_iff.mp (List.mem_map_of_mem hg'))
  case targets =>
    show ((deleteHookEntry s.g_hooks pre.length env.heapAlloc).items.map _).Nodup
    rw [hdel, (hleft.map HookEntry.pTarget).nodup_iff]
    have hnd := (hperm.map HookEntry.pTarget).nodup_iff.mp hI.targets
    rw [List.map_cons] at hnd
    exact (List.nodup_cons.mp hnd).2
  case sized =>
    refine hI.sized.delete ?_
    show pre.length < s.items.length
    rw [hitems, List.length_append, List.length_cons]
    omega
  case idle => exact fun hheap => absurd (hI.idle hheap) hpItems

/-! ### A new hook -/

section Create

variable {pTarget pDetour p : DWORD} {buf : BufferState} {bs' : List Block}

/-- The code of a target that can be hooked is that of `m₀`. -/
theorem code_of_hookable (hI : Installed m₀ s bs) (hk : Hookable m₀ s pTarget)
    (hnew : ∀ h ∈ s.items, h.pTarget ≠ pTarget) {x : DWORD}
    (hx : x ∈ targetCode pTarget) : s.buf.mem.bytes x = m₀.bytes x :=
  hI.code.rest x (hk.loaded x hx) fun h hh _ hx' => hk.apart h hh (hnew h hh) x hx' hx

/-- The entries and the code after a slot was given out. -/
theorem allocated (hI : Installed m₀ s bs)
    (hslots : Slots m₀ buf (p :: s.items.map HookEntry.pTrampoline) bs')
    (hk : Kept s.buf.mem buf.mem bs bs') :
    SameLoaded m₀ s.buf.mem buf.mem ∧ ∀ h ∈ s.items, Made m₀ buf.mem h := by
  refine ⟨hI.slots.same_loaded hslots.fresh hk, fun h hh => (hI.made h hh).congr ?_⟩
  have hlive := List.mem_map_of_mem (f := HookEntry.pTrampoline) hh
  exact hk.slots h.pTrampoline (hI.slots.mem_live.mp hlive)
    (hslots.mem_live.mp (List.mem_cons_of_mem _ hlive))

/-- The slot was not used after all. -/
theorem release (hI : Installed m₀ s bs) {mem : AddressSpace}
    (hslots : Slots m₀ { buf with mem := mem } (p :: s.items.map HookEntry.pTrampoline) bs')
    (hsame : SameLoaded m₀ s.buf.mem mem) (hmade : ∀ h ∈ s.items, Made m₀ mem h)
    {g_hooks : HookTable} (hitems : g_hooks.items = s.items) (hsized : Sized g_hooks)
    (hheap : s.g_hHeap = true) :
    ∃ buf' bs'', freeBuffer { buf with mem := mem } p = some buf' ∧
      Installed m₀ { s with buf := buf', g_hooks := g_hooks } bs'' ∧
      SameLoaded m₀ s.buf.mem buf'.mem := by
  obtain ⟨buf', bs'', hfree, hnew, hk⟩ := hslots.free (List.mem_cons_self ..)
  rw [List.erase_cons_head] at hnew
  have hrest := hsame.trans (hslots.same_loaded hnew.fresh hk)
  refine ⟨buf', bs'', hfree, ?_, hrest⟩
  have hitems' : MinHook.items { s with buf := buf', g_hooks := g_hooks } = s.items := hitems
  constructor
  case slots =>
    rw [hitems']
    exact hnew
  case code =>
    rw [hitems']
    exact hI.code.congr hrest.bytes
  case made =>
    rw [hitems']
    refine fun h hh => (hmade h hh).congr ?_
    have hlive := List.mem_map_of_mem (f := HookEntry.pTrampoline) hh
    exact hk.slots h.pTrampoline (hslots.mem_live.mp (List.mem_cons_of_mem _ hlive))
      (hnew.mem_live.mp hlive)
  case targets =>
    rw [hitems']
    exact hI.targets
  case sized => exact hsized
  case idle => exact fun hidle => absurd (hheap.symm.trans hidle) Bool.true_eq_false.mp

/-- What the new entry saved. -/
theorem newEntry_saved {mem : AddressSpace} {ct : Trampoline}
    (hload : ∀ x ∈ targetCode pTarget, Loaded m₀ (pageOf x))
    (hcode : ∀ x ∈ targetCode pTarget, mem.bytes x = m₀.bytes x) :
    Saved m₀ (MinHook.newEntry mem pTarget pDetour p ct) := by
  have hspan := fun {x} => (MinHook.newEntry mem pTarget pDetour p ct).window_span (x := x)
  have hbackup : (MinHook.newEntry mem pTarget pDetour p ct).backup =
      load mem.bytes (MinHook.newEntry mem pTarget pDetour p ct).pPatchTarget
        (MinHook.newEntry mem pTarget pDetour p ct).patchSize := by
    unfold MinHook.newEntry HookEntry.pPatchTarget HookEntry.patchSize
    dsimp only
    split <;> rfl
  have hreads : Reads mem.bytes (MinHook.newEntry mem pTarget pDetour p ct).pPatchTarget
      (MinHook.newEntry mem pTarget pDetour p ct).backup := by
    rw [hbackup]
    exact reads_load _ _ _
  have hlength : (MinHook.newEntry mem pTarget pDetour p ct).backup.length =
      (MinHook.newEntry mem pTarget pDetour p ct).patchSize := by
    rw [hbackup]
    exact length_load ..
  refine ⟨hlength, hreads.congr fun x hx => (hcode x (hspan ?_)).symm,
    fun x hx => hload x (hspan hx)⟩
  rwa [hlength] at hx

theorem createInSlot (hI : Installed m₀ s bs) (env : HookEnv) (pDetour : DWORD)
    (hheap : s.g_hHeap = true)
    (hh : Hookable m₀ s pTarget) (hnew : ∀ h ∈ s.items, h.pTarget ≠ pTarget)
    (hslots : Slots m₀ buf (p :: s.items.map HookEntry.pTrampoline) bs')
    (hk : Kept s.buf.mem buf.mem bs bs') :
    ∃ s' st bs'', MinHook.createInSlot { s with buf := buf } env pTarget pDetour p = some (s', st) ∧
      Installed m₀ s' bs'' ∧ SameLoaded m₀ s.buf.mem s'.buf.mem ∧ s'.g_hHeap = s.g_hHeap ∧
      (st = .MH_OK ∧ (∃ e, s'.items = s.items ++ [e] ∧ e.pTarget = pTarget ∧ e.pDetour = pDetour ∧
          e.isEnabled = false ∧ e.queueEnable = false) ∨
        s'.items = s.items ∧ (st = .MH_ERROR_MEMORY_ALLOC ∧ env.heapAlloc = false ∨
          st = .MH_ERROR_UNSUPPORTED_FUNCTION ∧ Unsupported m₀ s.buf.mem pTarget)) := by
  obtain ⟨hsame, hmade⟩ := hI.allocated hslots hk
  obtain ⟨hprot, hwrites⟩ := createTrampolineFunction_writes buf.mem pTarget p
  unfold MinHook.createInSlot
  dsimp only
  generalize hr : createTrampolineFunction buf.mem pTarget p = r at hprot hwrites
  obtain ⟨mem, made⟩ := r
  dsimp only at hprot hwrites ⊢
  -- only the slot was written
  have hp : p ∈ p :: s.items.map HookEntry.pTrampoline := List.mem_cons_self ..
  have hapart : SlotApart pTarget p := fun x hx hx' => hslots.not_loaded hp hx (hh.loaded x hx')
  have hmem : { buf with mem := mem } = { buf with mem.bytes := mem.bytes } := by
    obtain ⟨b, pr⟩ := mem
    dsimp only at hprot
    rw [hprot]
  have hslots' : Slots m₀ { buf with mem := mem } (p :: s.items.map HookEntry.pTrampoline) bs' := by
    rw [hmem]
    exact hslots.write hp hwrites
  have hsame' : SameLoaded m₀ s.buf.mem mem := hsame.trans
    ⟨fun x hx => hwrites x fun hx' => hslots.not_loaded hp hx' hx, fun page _ => by rw [hprot]⟩
  have hmade' : ∀ h ∈ s.items, Made m₀ mem h := by
    refine fun h hh => (hmade h hh).congr fun x hx => hwrites x fun hx' => ?_
    have hlive := List.mem_map_of_mem (f := HookEntry.pTrampoline) hh
    have hne : h.pTrampoline ≠ p := fun heq => (List.nodup_cons.mp hslots.nodup).1 (heq ▸ hlive)
    exact hslots.pool.allocated_disjoint (hslots.mem_live.mp (List.mem_cons_of_mem _ hlive))
      (hslots.mem_live.mp hp) hne x hx hx'
  cases made with
  | none =>
    obtain ⟨buf', bs'', hfree, hI', hrest⟩ := hI.release hslots' hsame' hmade' rfl hI.sized hheap
    have hun : Unsupported m₀ s.buf.mem pTarget := ⟨buf.mem, p, hsame, hapart, by rw [hr]⟩
    refine ⟨_, _, bs'', by dsimp only; rw [hfree]; rfl, hI', hrest, rfl,
      .inr ⟨rfl, .inr ⟨rfl, hun⟩⟩⟩
  | some ct =>
    dsimp only
    generalize hadd : addHookEntry s.g_hooks env.heapAlloc
      (MinHook.newEntry mem pTarget pDetour p ct) = t
    obtain ⟨g_hooks, added⟩ := t
    have hitems := addHookEntry_items hadd
    have hsized := hI.sized.add hadd
    dsimp only
    cases added with
    | false =>
      rw [if_neg Bool.false_ne_true] at hitems
      obtain ⟨buf', bs'', hfree, hI', hrest⟩ := hI.release hslots' hsame' hmade' hitems hsized hheap
      refine ⟨_, _, bs'', by rw [if_neg Bool.false_ne_true, hfree]; rfl, hI', hrest, rfl,
        .inr ⟨hitems, .inl ⟨rfl, addHookEntry_fails hadd⟩⟩⟩
    | true =>
      rw [if_pos rfl] at hitems
      have hcode : ∀ x ∈ targetCode pTarget, mem.bytes x = m₀.bytes x := fun x hx =>
        (hsame'.bytes x (hh.loaded x hx)).trans (hI.code_of_hookable hh hnew hx)
      have hperm : (MinHook.newEntry mem pTarget pDetour p ct :: s.items).Perm
          (s.items ++ [MinHook.newEntry mem pTarget pDetour p ct]) :=
        (List.perm_append_singleton _ _).symm
      refine ⟨{ s with buf := { buf with mem := mem }, g_hooks := g_hooks }, _, bs',
        by rw [if_pos rfl], ?_, hsame', rfl, .inl ⟨rfl, _, hitems, rfl, rfl, rfl, rfl⟩⟩
      have hitems' : MinHook.items { s with buf := { buf with mem := mem }, g_hooks := g_hooks } =
          s.items ++ [MinHook.newEntry mem pTarget pDetour p ct] := hitems
      constructor
      case slots =>
        rw [hitems']
        exact ⟨hslots'.pool, hslots'.live.trans (hperm.map HookEntry.pTrampoline), hslots'.used,
          hslots'.fresh, hslots'.loaded, hslots'.vacant⟩
      case code =>
        rw [hitems']
        refine ((hI.code.congr hsame'.bytes).add (newEntry_saved hh.loaded hcode) Bool.false_ne_true
          fun g hg x hx hx' => ?_).perm hperm
        exact hh.apart g hg (hnew g hg) x hx
          ((MinHook.newEntry mem pTarget pDetour p ct).window_span hx')
      case made =>
        rw [hitems']
        intro h hmem
        rcases List.mem_append.mp hmem with hmem | hmem
        · exact hmade' h hmem
        · rw [List.mem_singleton.mp hmem]
          refine ⟨hh.space, hapart, hh.loaded, stands_of_made hapart (fun x hx => ?_) hr⟩
          rw [hsame.bytes x (hh.loaded x hx)]
          exact hI.code_of_hookable hh hnew hx
      case targets =>
        rw [hitems', ← (hperm.map HookEntry.pTarget).nodup_iff, List.map_cons, List.nodup_cons]
        refine ⟨fun hmem => ?_, hI.targets⟩
        obtain ⟨g, hg, heq⟩ := List.mem_map.mp hmem
        exact hnew g hg heq
      case sized => exact hsized
      case idle => exact fun hidle => absurd (hheap.symm.trans hidle) Bool.true_eq_false.mp

end Create

end Installed

/-! ## The calls -/

/-- What the specification says of a call in the state `s`. -/
abbrev Specified (m₀ : AddressSpace) (s : MinHook) (env : HookEnv) :
    Option HookMap → MhCall → Option HookMap → MH_STATUS → Prop :=
  HookSpec env (isExecutableAddress s.buf.mem) (Unsupported m₀ s.buf.mem)

/-- What a call makes of a state: the specification is met, and a call that is refused changes no
code. -/
structure Answer (m₀ : AddressSpace) (s : MinHook) (env : HookEnv) (c : MhCall) (s' : MinHook)
    (st : MH_STATUS) : Prop where
  installed : ∃ bs, Installed m₀ s' bs
  spec : Specified m₀ s env s.view c s'.view st
  refused : st ≠ .MH_OK → st ≠ .MH_ERROR_MEMORY_PROTECT → SameLoaded m₀ s.buf.mem s'.buf.mem

section Calls

variable {m₀ : AddressSpace} {s s' : MinHook} {bs : List Block} {env : HookEnv} {c : MhCall}
  {st : MH_STATUS} {t d : DWORD}

theorem view_some (h : s.g_hHeap = true) : s.view = some (viewOf s.items) := if_pos h

theorem view_none (h : s.g_hHeap = false) : s.view = none := by
  rw [MinHook.view, h]
  rfl

theorem SameLoaded.refl (m₀ m : AddressSpace) : SameLoaded m₀ m m :=
  ⟨fun _ _ => rfl, fun _ _ => rfl⟩

namespace Installed

/-- Nothing has happened. -/
theorem stay (hI : Installed m₀ s bs) (hs : Specified m₀ s env s.view c s.view st) :
    Answer m₀ s env c s st :=
  ⟨⟨bs, hI⟩, hs, fun _ _ => SameLoaded.refl ..⟩

theorem not_initialized (hI : Installed m₀ s bs) (hheap : s.g_hHeap = false)
    (hc : c ≠ .MH_Initialize) : Answer m₀ s env c s .MH_ERROR_NOT_INITIALIZED := by
  refine hI.stay ?_
  rw [view_none hheap]
  exact .notInitialized hc

theorem start (hI : Installed m₀ s bs) :
    Answer m₀ s env .MH_Initialize ( s.MH_Initialize env).1 ( s.MH_Initialize env).2 := by
  unfold MinHook.MH_Initialize
  cases hheap : s.g_hHeap with
  | true =>
    refine hI.stay ?_
    rw [view_some hheap]
    exact .alreadyInitialized
  | false =>
    rw [if_pos (by decide)]
    split
    · have hnone := hI.idle hheap
      have hitems : s.items = [] := by
        rw [MinHook.items, HookTable.items, hnone]
        rfl
      refine ⟨⟨bs, hI.slots, hI.code, hI.made, hI.targets, hI.sized, fun h => by cases h⟩, ?_,
        fun _ _ => SameLoaded.refl ..⟩
      rw [view_none hheap, view_some rfl]
      show Specified m₀ s env none .MH_Initialize (some (viewOf s.items)) .MH_OK
      rw [hitems]
      exact .initialized
    · rename_i hfail
      refine hI.stay ?_
      rw [view_none hheap]
      exact .noHeap (Bool.eq_false_iff.mpr hfail)

/-- The loop over all hooks, in terms of the map. -/
theorem enableHooks_view (hI : Installed m₀ s bs) (env : HookEnv) (action : FreezeAction)
    (want : HookEntry → Bool) (wants : HookView → Bool) (hheap : s.g_hHeap = true)
    {g : HookView → HookView} (hwant : ∀ h : HookEntry, want h = wants h.view)
    (hview : ∀ h : HookEntry, (h.switch want).view = g h.view) :
    ((s.enableHooks env want action).2 = .MH_OK ∧
      (s.enableHooks env want action).1.items = s.items.map (HookEntry.switch want) ∧
      (s.enableHooks env want action).1.view = some fun t => (viewOf s.items t).map g) ∨
    ((s.enableHooks env want action).2 = .MH_ERROR_MEMORY_PROTECT ∧ env.ProtectFails ∧
      ∃ hooks', (s.enableHooks env want action).1.view = some hooks' ∧
        Partly wants g (viewOf s.items) hooks') := by
  obtain ⟨hI', hheap', k, hitems, hst⟩ := hI.enableHooks env want action
  have hv := view_some (hheap'.trans hheap)
  obtain ⟨hok, hk⟩ | ⟨hfail, h, hk, hne, hprotect⟩ := hst
  · rw [List.take_of_length_le hk, List.drop_of_length_le hk, List.append_nil] at hitems
    refine .inl ⟨hok, hitems, ?_⟩
    rw [hv, hitems, viewOf_map (HookEntry.switch_pTarget want) hview]
  · refine .inr ⟨hfail, ⟨k, Bool.eq_false_iff.mpr hprotect⟩, _, hv, fun t => ?_,
      h.pTarget, h.view, ?_, ?_, ?_⟩
    · rw [hitems]
      exact viewOf_prefix (HookEntry.switch_pTarget want) hview k t
    · -- the hook at which the loop ended
      obtain ⟨pre, post, hsplit, -⟩ := split_at hk
      have hnd := hI.targets
      rw [hsplit] at hnd ⊢
      exact viewOf_self hnd rfl
    · obtain ⟨pre, post, hsplit, rfl⟩ := split_at hk
      have hnd := hI'.targets
      rw [hitems, hsplit, List.drop_left] at hnd ⊢
      exact viewOf_self hnd rfl
    · rw [← hwant]
      exact hne

theorem stop (hI : Installed m₀ s bs) : ∃ s' st, s.MH_Uninitialize env = some (s', st) ∧
    Answer m₀ s env MhCall.MH_Uninitialize s' st := by
  unfold MinHook.MH_Uninitialize
  cases hheap : s.g_hHeap with
  | false => exact ⟨s, _, rfl, hI.not_initialized hheap (fun h => by cases h)⟩
  | true =>
    rw [if_pos rfl]
    obtain ⟨hI', -, -⟩ := hI.enableHooks env (fun _ => false) .ACTION_DISABLE
    have hviews := hI.enableHooks_view env .ACTION_DISABLE (fun _ => false) (fun _ => false) hheap
      (fun _ => rfl) (switch_view false)
    have hall : s.enableAllHooksLL env false =
        s.enableHooks env (fun _ => false) .ACTION_DISABLE := rfl
    rw [hall]
    generalize s.enableHooks env (fun _ => false) .ACTION_DISABLE = r at hI' hviews ⊢
    obtain ⟨s₁, st⟩ := r
    dsimp only at hI' hviews
    obtain ⟨rfl, hitems, -⟩ | ⟨rfl, hfails, hooks', hv, hpart⟩ := hviews
    · -- every hook is disabled
      have hdis : ∀ h ∈ s₁.items, ¬ h.isEnabled := by
        intro h hh
        rw [hitems] at hh
        obtain ⟨g, -, rfl⟩ := List.mem_map.mp hh
        have hoff : (g.switch fun _ => false).isEnabled = false := by
          unfold HookEntry.switch
          split
          · assumption
          · rfl
        rw [hoff]
        exact Bool.false_ne_true
      obtain ⟨buf', hun, hslots, hk⟩ := hI'.slots.freeAll
      have hsame := hI'.slots.same_loaded hslots.fresh hk
      refine ⟨{ s₁ with buf := buf', g_hHeap := false, g_hooks := ⟨none, 0⟩ }, .MH_OK, ?_, ?_, ?_,
        fun h => absurd rfl h⟩
      · dsimp only
        rw [hun]
        rfl
      · refine ⟨[], hslots, Code.nil fun x hx => ?_, nofun, List.nodup_nil, ⟨Nat.zero_le _, nofun⟩,
          fun _ => rfl⟩
        exact (hsame.bytes x hx).trans (hI'.code.original hdis hx)
      · rw [view_some hheap, view_none rfl]
        exact .uninitialized
    · refine ⟨s₁, _, rfl, ⟨bs, hI'⟩, ?_, fun _ h => absurd rfl h⟩
      rw [view_some hheap, hv]
      exact .uninitializeFails hfails hpart

theorem applyQueued (hI : Installed m₀ s bs) :
    Answer m₀ s env .MH_ApplyQueued (s.MH_ApplyQueued env).1 (s.MH_ApplyQueued env).2 := by
  unfold MinHook.MH_ApplyQueued
  cases hheap : s.g_hHeap with
  | false => exact hI.not_initialized hheap (fun h => by cases h)
  | true =>
    rw [if_pos rfl]
    obtain ⟨hI', -, -⟩ := hI.enableHooks env HookEntry.queueEnable .ACTION_APPLY_QUEUED
    obtain ⟨hok, -, hv⟩ | ⟨hfail, hfails, hooks', hv, hpart⟩ :=
      hI.enableHooks_view env .ACTION_APPLY_QUEUED HookEntry.queueEnable HookView.queueEnable
        hheap (fun _ => rfl) apply_view
    · refine ⟨⟨bs, hI'⟩, ?_, fun h => absurd hok h⟩
      rw [hok, view_some hheap, hv]
      exact .applied
    · refine ⟨⟨bs, hI'⟩, ?_, fun _ h => absurd hfail h⟩
      rw [hfail, view_some hheap, hv]
      exact .applyFails hfails hpart

/-- The entry that was found, and the map. -/
theorem entry (hI : Installed m₀ s bs) {pos : Nat} {h : HookEntry}
    (hf : entryOf s.g_hooks t = some (pos, h)) : h.pTarget = t ∧ ∃ pre post,
      s.items = pre ++ h :: post ∧ pre.length = pos ∧ viewOf s.items t = some h.view := by
  obtain ⟨ht, pre, post, hitems, hpos⟩ := entryOf_some hf
  have hitems' : s.items = pre ++ h :: post := hitems
  refine ⟨ht, pre, post, hitems, hpos, ?_⟩
  have hnd := hI.targets
  rw [hitems'] at hnd ⊢
  exact viewOf_self hnd ht

theorem enableHook (hI : Installed m₀ s bs) (e : Bool) :
    Answer m₀ s env (.EnableHook t e) (s.enableHook env t e).1 (s.enableHook env t e).2 := by
  unfold MinHook.enableHook
  cases hheap : s.g_hHeap with
  | false => exact hI.not_initialized hheap (fun h => by cases h)
  | true =>
    rw [if_pos rfl]
    have hv := view_some hheap
    by_cases hall : t = MH_ALL_HOOKS
    · rw [if_pos hall, MinHook.enableAllHooksLL, hall]
      generalize haction : (if e = true then FreezeAction.ACTION_ENABLE
        else FreezeAction.ACTION_DISABLE) = action
      obtain ⟨hI', -, -⟩ := hI.enableHooks env (fun _ => e) action
      obtain ⟨hok, -, hv'⟩ | ⟨hfail, hfails, hooks', hv', hpart⟩ :=
        hI.enableHooks_view env action (fun _ => e) (fun _ => e) hheap (fun _ => rfl)
          (switch_view e)
      · refine ⟨⟨bs, hI'⟩, ?_, fun h => absurd hok h⟩
        rw [hok, hv, hv']
        exact .enabledAll
      · refine ⟨⟨bs, hI'⟩, ?_, fun _ h => absurd hfail h⟩
        rw [hfail, hv, hv']
        exact .enableAllFails hfails hpart
    · rw [if_neg hall]
      cases hf : entryOf s.g_hooks t with
      | none =>
        refine hI.stay ?_
        rw [hv]
        exact .enableNotCreated hall (viewOf_eq_none.mpr (entryOf_none hf))
      | some found =>
        obtain ⟨pos, h⟩ := found
        obtain ⟨ht, pre, post, hitems, rfl, hview⟩ := hI.entry hf
        dsimp only
        by_cases hflag : h.isEnabled = e
        · rw [if_neg (not_not.mpr hflag)]
          refine hI.stay ?_
          rw [hv]
          exact .alreadyEnabled hall hview hflag
        · rw [if_pos hflag]
          obtain ⟨hI', hcases, hheap'⟩ := hI.enableOne env hitems .ACTION_ENABLE e
          have hv' := view_some (hheap'.trans hheap)
          obtain ⟨hok, hnew⟩ | ⟨hfail, hnew, hfails⟩ := hcases
          · refine ⟨⟨bs, hI'⟩, ?_, fun h => absurd hok h⟩
            have hnd := hI.targets
            rw [hitems] at hnd
            rw [hok, hv, hv', hnew, viewOf_replace (h.set e) hnd ht ht, ← hitems]
            exact .enabled hall hview hflag
          · refine ⟨⟨bs, hI'⟩, ?_, fun _ h => absurd hfail h⟩
            rw [hfail, hv, hv', hnew]
            exact .enableFails hfails hall hview hflag

theorem removeHook (hI : Installed m₀ s bs) : ∃ s' st, s.MH_RemoveHook env t = some (s', st) ∧
    Answer m₀ s env (.MH_RemoveHook t) s' st := by
  unfold MinHook.MH_RemoveHook
  cases hheap : s.g_hHeap with
  | false => exact ⟨s, _, rfl, hI.not_initialized hheap (fun h => by cases h)⟩
  | true =>
    rw [if_pos rfl]
    have hv := view_some hheap
    cases hf : entryOf s.g_hooks t with
    | none =>
      refine ⟨s, _, rfl, hI.stay ?_⟩
      rw [hv]
      exact .removeNotCreated (viewOf_eq_none.mpr (entryOf_none hf))
    | some found =>
      obtain ⟨pos, h⟩ := found
      obtain ⟨ht, pre, post, hitems, rfl, hview⟩ := hI.entry hf
      have hnd := hI.targets
      rw [hitems] at hnd
      dsimp only
      -- the entry goes
      have hdrop : ∀ {s₁ : MinHook} {bs₁ : List Block} {g : HookEntry}, Installed m₀ s₁ bs₁ →
          s₁.items = pre ++ g :: post → ¬ g.isEnabled → g.pTrampoline = h.pTrampoline →
          s₁.g_hHeap = true → ∃ s' st, s₁.dropEntry env pre.length h.pTrampoline = some (s', st) ∧
            Answer m₀ s env (.MH_RemoveHook t) s' st := by
        intro s₁ bs₁ g hI₁ hitems₁ hoff htr hheap₁
        obtain ⟨s', bs', hrun, hI', hperm, hheap'⟩ := hI₁.dropEntry env hitems₁ hoff
        rw [htr] at hrun
        refine ⟨s', _, hrun, ⟨bs', hI'⟩, ?_, fun h => absurd rfl h⟩
        rw [hv, view_some (hheap'.trans hheap₁), viewOf_remove hnd ht hperm, ← hitems]
        exact .removed hview
      by_cases hen : h.isEnabled
      · rw [if_pos hen]
        obtain ⟨hI', hcases, hheap'⟩ := hI.enableOne env hitems .ACTION_DISABLE false
        generalize s.enableOne env pre.length h .ACTION_DISABLE false = r at hI' hcases hheap' ⊢
        obtain ⟨s₁, st₁⟩ := r
        dsimp only at hI' hcases hheap'
        obtain ⟨rfl, hnew⟩ | ⟨rfl, hnew, hfails⟩ := hcases
        · exact hdrop hI' hnew Bool.false_ne_true rfl (hheap'.trans hheap)
        · refine ⟨s₁, _, rfl, ⟨bs, hI'⟩, ?_, fun _ h => absurd rfl h⟩
          rw [hv, view_some (hheap'.trans hheap), hnew]
          exact .removeFails hfails hview hen
      · rw [if_neg hen]
        exact hdrop hI hitems hen rfl hheap

/-- Flags that are only queued. -/
theorem requeue (hI : Installed m₀ s bs) (hheap : s.g_hHeap = true) {items : List HookEntry}
    (hcore : items.map HookEntry.core = s.items.map HookEntry.core)
    (hc : Code m₀ s.buf.mem items)
    (hspec : Specified m₀ s env (some (viewOf s.items)) c (some (viewOf items)) .MH_OK) :
    Answer m₀ s env c { s with g_hooks := s.g_hooks.set items } .MH_OK := by
  obtain ⟨hI', hnew⟩ := hI.setPatched hcore hc (CodeOnly.refl ..)
  have hv : MinHook.view { s with g_hooks := s.g_hooks.set items } = some (viewOf items) :=
    (if_pos hheap).trans (congrArg (fun l => some (viewOf l)) hnew)
  refine ⟨⟨bs, hI'⟩, ?_, fun h => absurd rfl h⟩
  rw [view_some hheap, hv]
  exact hspec

theorem queueHook (hI : Installed m₀ s bs) (q : Bool) :
    Answer m₀ s env (.QueueHook t q) (s.queueHook t q).1 (s.queueHook t q).2 := by
  unfold MinHook.queueHook
  by_cases hheap : s.g_hHeap
  · rw [if_pos hheap]
    by_cases hall : t = MH_ALL_HOOKS
    · rw [if_pos hall, hall]
      refine hI.requeue hheap (by rw [List.map_map]; rfl)
        (hI.code.requeue (by rw [List.map_map]; rfl)) ?_
      have hmap : viewOf (s.items.map ({ · with queueEnable := q })) =
          fun t => (viewOf s.items t).map ({ · with queueEnable := q }) :=
        viewOf_map (fun _ => rfl) fun _ => rfl
      rw [hmap]
      exact .queuedAll
    · rw [if_neg hall]
      cases hf : entryOf s.g_hooks t with
      | none =>
        refine hI.stay ?_
        rw [view_some hheap]
        exact .queueNotCreated hall (viewOf_eq_none.mpr (entryOf_none hf))
      | some found =>
        obtain ⟨pos, h⟩ := found
        obtain ⟨ht, pre, post, hitems, rfl, hview⟩ := hI.entry hf
        have hset : s.items.set pre.length { h with queueEnable := q } =
            pre ++ { h with queueEnable := q } :: post := by
          rw [hitems, List.set_append_right _ _ (Nat.le_refl _), Nat.sub_self, List.set_cons_zero]
        have hnd := hI.targets
        have hc := hI.code
        dsimp only
        rw [hset]
        rw [hitems] at hnd hc
        refine hI.requeue hheap ?_ (hc.requeue ?_) ?_
        · rw [hitems, List.map_append, List.map_append, List.map_cons, List.map_cons]
          rfl
        · rw [List.map_append, List.map_append, List.map_cons, List.map_cons]
          rfl
        · rw [viewOf_replace { h with queueEnable := q } hnd ht ht, ← hitems]
          exact .queued hall hview
  · rw [if_neg hheap]
    exact hI.not_initialized (Bool.eq_false_iff.mpr hheap) (fun h => by cases h)

theorem createHook (hI : Installed m₀ s bs)
    (hv : ∀ b, env.virtualAlloc = some b → Vacant s.buf.mem b) (hh : Hookable m₀ s t) :
    ∃ s' st, s.MH_CreateHook env t d = some (s', st) ∧
    Answer m₀ s env (.MH_CreateHook t d) s' st := by
  unfold MinHook.MH_CreateHook
  by_cases hheap : s.g_hHeap
  · rw [if_pos hheap]
    have hview := view_some hheap
    split
    · rename_i hexec
      cases hf : findHookEntry s.g_hooks t with
      | some pos =>
        obtain ⟨h, hh, ht⟩ := findHookEntry_some hf
        refine ⟨s, _, rfl, hI.stay ?_⟩
        rw [hview]
        obtain ⟨v, hv⟩ := Option.ne_none_iff_exists'.mp
          fun hnone => viewOf_eq_none.mp hnone h hh ht
        exact .alreadyCreated hexec hv
      | none =>
        have hnew := findHookEntry_none hf
        have hnone : viewOf s.items t = none := viewOf_eq_none.mpr hnew
        obtain ⟨halloc, hbase⟩ | ⟨buf, p, bs', halloc, hslots, hk⟩ := hI.slots.allocate hv
        · refine ⟨s, .MH_ERROR_MEMORY_ALLOC, ?_, hI.stay ?_⟩
          · dsimp only
            rw [halloc, Option.bind_some]
            rfl
          · rw [hview]
            exact .noMemory hexec hnone (.inl hbase)
        · have hp : p ≠ 0 := hslots.ne_zero (List.mem_cons_self ..)
          obtain ⟨s', st, bs'', hrun, hI', hsame, hheap', hcases⟩ :=
            hI.createInSlot env d hheap hh hnew hslots hk
          refine ⟨s', st, ?_, ⟨bs'', hI'⟩, ?_, fun _ _ => hsame⟩
          · dsimp only
            rw [halloc, Option.bind_some]
            dsimp only
            rw [if_pos hp]
            exact hrun
          · rw [hview, view_some (hheap'.trans hheap)]
            obtain ⟨rfl, e, hitems, ht, hd, hoff, hq⟩ | ⟨hitems, ⟨rfl, hheap⟩ | ⟨rfl, hun⟩⟩ := hcases
            · have hnd := hI'.targets
              rw [hitems] at hnd ⊢
              have heview : e.view = ⟨d, false, false⟩ := by rw [HookEntry.view, hd, hoff, hq]
              rw [viewOf_append hnd, ht, heview]
              exact .created hexec hnone
            · rw [hitems]
              exact .noMemory hexec hnone (.inr hheap)
            · rw [hitems]
              exact .unsupported hexec hnone hun
    · rename_i hexec
      refine ⟨s, _, rfl, hI.stay ?_⟩
      rw [hview]
      exact .notExecutable hexec
  · rw [if_neg hheap]
    exact ⟨s, _, rfl, hI.not_initialized (Bool.eq_false_iff.mpr hheap) (fun h => by cases h)⟩

/-- Each call ends, and does what it may. -/
theorem call (hI : Installed m₀ s bs) (hok : mhOk m₀ s (c, env)) :
    ∃ s' st, mhCall s env c = some (s', st) ∧ Answer m₀ s env c s' st := by
  cases c with
  | MH_Initialize => exact ⟨_, _, rfl, hI.start⟩
  | MH_Uninitialize => exact hI.stop
  | MH_CreateHook t d => exact hI.createHook hok.1 (hok.2 t d rfl)
  | MH_RemoveHook t => exact hI.removeHook
  | EnableHook t e => exact ⟨_, _, mhCall_enableHook, hI.enableHook e⟩
  | QueueHook t q => cases q with
    | true => exact ⟨_, _, rfl, hI.queueHook true⟩
    | false => exact ⟨_, _, rfl, hI.queueHook false⟩
  | MH_ApplyQueued => exact ⟨_, _, rfl, hI.applyQueued⟩

end Installed

end Calls

end Bossran
