import BossranMenu.MinHook.Hooking
import BossranMenu.MinHook.Detour

/-!
# What holds in every run of the library

* `mh_refines`: each call ends, and does what `HookSpec` says.
* `mh_code`: the code is what it was, with the jumps of the enabled hooks. `mh_idle`: when the
  library is not initialized, nothing is left of it.
* `mh_slots`: the trampolines do not overlap, and no page is held for anything else.
* `mh_detour`: a hooked function goes to its detour. `mh_original`: its trampoline does what the
  function did.
-/

namespace Bossran

open Memory Lockstep

/-! ## A run -/

section Run

/-- The memory of `jumpFirst`, of which three pages are in use. -/
def hookedApp : AddressSpace where
  bytes := jumpFirst.bytes
  protection page := if page = 0x400 ∨ page = 0x401 ∨ page = 0x402 then 0x20 else 0

/-- Every call of the system succeeds, and `base` is the new block. -/
def calm (base : Option DWORD) : HookEnv where
  heapCreate := true
  virtualAlloc := base
  heapAlloc := true
  virtualProtect _ := true
  freeze := {
    processId := 0
    threadId := 0
    snapshot := none
    heapAlloc := fun _ => true
    openThread := fun _ => true
    getThreadContext := fun _ => true
    setThreadContext := fun _ => true
    reopenThread := fun _ => true }

/-- The library is initialized. The other threads are at the second instruction. -/
def hookedStart : MinHook := ⟨⟨hookedApp, 0⟩, true, ⟨none, 0⟩, fun _ => ⟨0x401002, 0⟩⟩

def hookedCreate : Option (MinHook × MH_STATUS) :=
  mhCall hookedStart (calm (some 0x10000)) (.MH_CreateHook 0x401000 0x401100)

theorem hookedStart_run :
    (mhMachine hookedApp).RunWhere (mhOk hookedApp) [( .MH_Initialize, calm none)] hookedStart :=
  .single (s := { hookedStart with g_hHeap := false }) ⟨rfl, rfl, rfl⟩ ⟨nofun, nofun⟩ rfl

theorem hookedStart_ok :
    mhOk hookedApp hookedStart (.MH_CreateHook 0x401000 0x401100, calm (some 0x10000)) := by
  decide +kernel

/-- The hook that is created, when it is enabled. -/
def hookedEntry : HookEntry where
  pTarget := 0x401000
  pDetour := 0x401100
  pTrampoline := 0x10FE0
  backup := [0x85, 0xC0, 0x74, 0x20, 0xE8]
  patchAbove := false
  isEnabled := true
  queueEnable := true
  ips := jumpFirstIPs

/-- The entry, a page that is not in use, and whether the heap is there after `MH_Uninitialize`. -/
theorem hookedCreate_items : (hookedCreate.map fun r =>
      let s := (r.1.MH_EnableHook (calm none) 0x401000).1
      (s.items, s.buf.mem.protection (pageOf 0x20000),
        ( s.MH_Uninitialize (calm none)).map fun r => r.1.g_hHeap)) =
    some ([hookedEntry], 0, some false) := by
  decide +kernel

/-- The calls by which the function is hooked. -/
def hookedCalls : List (MhCall × HookEnv) :=
  [( .MH_Initialize, calm none), (.MH_CreateHook 0x401000 0x401100, calm (some 0x10000)),
    (.EnableHook 0x401000 true, calm none)]

/-- The function has a hook, which is not enabled. -/
theorem hookedCreate_run : ∃ s st, hookedCreate = some (s, st) ∧
    (mhMachine hookedApp).RunWhere (mhOk hookedApp) [(.MH_Initialize, calm none),
      (.MH_CreateHook 0x401000 0x401100, calm (some 0x10000))] s := by
  obtain ⟨⟨s, st⟩, hcreate, -⟩ := Option.map_eq_some_iff.mp hookedCreate_items
  refine ⟨s, st, hcreate, hookedStart_run.step _ hookedStart_ok ?_⟩
  unfold hookedCreate at hcreate
  rw [mhMachine_step, hcreate, Option.map_some]

theorem hookedCalls_run : ∃ s, (mhMachine hookedApp).RunWhere (mhOk hookedApp) hookedCalls s ∧
    s.items = [hookedEntry] ∧ s.buf.mem.protection (pageOf 0x20000) = 0 ∧
    (mhCall s (calm none) MhCall.MH_Uninitialize).map (fun r => r.1.g_hHeap) = some false := by
  obtain ⟨s, st, hcreate, hrun⟩ := hookedCreate_run
  have hitems := hookedCreate_items
  rw [hcreate, Option.map_some] at hitems
  obtain ⟨hitems, hrest⟩ := Prod.mk.inj (Option.some.inj hitems)
  obtain ⟨hpage, hstop⟩ := Prod.mk.inj hrest
  have hok : mhOk hookedApp s (.EnableHook 0x401000 true, calm none) := ⟨nofun, nofun⟩
  exact ⟨_, hrun.step _ hok rfl, hitems, hpage, hstop⟩

end Run

/-! ## Runs -/

section Runs

variable {m₀ : AddressSpace} {tr : List (MhCall × HookEnv)} {s : MinHook} {c : MhCall}
  {env : HookEnv} {h : HookEntry}

theorem installed_of_run (hr : (mhMachine m₀).RunWhere (mhOk m₀) tr s) :
    ∃ bs, Installed m₀ s bs := by
  refine hr.invariant (I := fun _ s => ∃ bs, Installed m₀ s bs) ?_ ?_
  · exact fun s hs => ⟨[], Installed.init hs⟩
  · rintro tr s ⟨c, env⟩ s' - ⟨bs, hI⟩ hok hs
    obtain ⟨s₁, st, hcall, ⟨bs', hI'⟩, -, -⟩ := hI.call hok
    rw [mhMachine_step, hcall, Option.map_some, Option.some.injEq] at hs
    exact ⟨bs', hs ▸ hI'⟩

/-- Each call ends, and does what the specification says, which leaves no choice where the system
refuses nothing. A call that is refused changes no code. -/
theorem mh_refines (hr : (mhMachine m₀).RunWhere (mhOk m₀) tr s) (hok : mhOk m₀ s (c, env)) :
    ∃ s' st, mhCall s env c = some (s', st) ∧ Specified m₀ s env s.view c s'.view st ∧
      (env.Grants → (∀ t d, c = .MH_CreateHook t d → ¬ Unsupported m₀ s.buf.mem t) →
        (s'.view, st) = hookAnswer (isExecutableAddress s.buf.mem) s.view c) ∧
      (st ≠ .MH_OK → st ≠ .MH_ERROR_MEMORY_PROTECT → SameLoaded m₀ s.buf.mem s'.buf.mem) := by
  obtain ⟨bs, hI⟩ := installed_of_run hr
  obtain ⟨s', st, hcall, -, hspec, hrefused⟩ := hI.call hok
  exact ⟨s', st, hcall, hspec, hspec.answer, hrefused⟩

theorem mh_refines_hooked : ∃ s s' st, s.items = [hookedEntry] ∧
    mhCall s (calm (some 0x20000)) (.MH_RemoveHook 0x401000) = some (s', st) ∧
    (s'.view, st) =
      hookAnswer (isExecutableAddress s.buf.mem) s.view (.MH_RemoveHook 0x401000) := by
  obtain ⟨s, hr, hitems, hpage, -⟩ := hookedCalls_run
  have hok : mhOk hookedApp s (.MH_RemoveHook 0x401000, calm (some 0x20000)) := by
    refine ⟨fun b hb => ?_, nofun⟩
    obtain rfl := Option.some.inj hb
    exact ⟨by decide, by decide, hpage⟩
  obtain ⟨s', st, hcall, -, hanswer, -⟩ := mh_refines hr hok
  refine ⟨s, s', st, hitems, hcall, hanswer ⟨rfl, ?_, rfl, fun _ => rfl⟩ nofun⟩
  exact Option.some_ne_none _

/-- What was in use is as it was, but for the jumps of the enabled hooks. Every hook has saved the
bytes of its window. -/
theorem mh_code (hr : (mhMachine m₀).RunWhere (mhOk m₀) tr s) :
    (∀ h ∈ s.items, Reads m₀.bytes h.pPatchTarget h.backup ∧ h.backup.length = h.patchSize) ∧
    (∀ h ∈ s.items, Reads s.buf.mem.bytes h.pPatchTarget h.code) ∧
    ∀ x, Loaded m₀ (pageOf x) → (∀ h ∈ s.items, h.isEnabled → x ∉ h.window) →
      s.buf.mem.bytes x = m₀.bytes x := by
  obtain ⟨bs, hI⟩ := installed_of_run hr
  refine ⟨fun h hh => ⟨(hI.code.saved h hh).reads, (hI.code.saved h hh).length⟩, fun h hh => ?_,
    hI.code.rest⟩
  unfold HookEntry.code
  split
  · exact hI.code.enabled h hh ‹_›
  · -- no other hook has written to the window
    rename_i hoff
    have hsaved := hI.code.saved h hh
    refine hsaved.reads.congr fun x hx => ?_
    rw [hsaved.length] at hx
    refine hI.code.rest x (hsaved.loaded x hx) fun g hg hen hx' => ?_
    have hne : h ≠ g := fun heq => hoff (heq ▸ hen)
    obtain ⟨pre, post, hitems⟩ := List.append_of_mem hh
    have hcode := hI.code
    rw [hitems] at hcode hg
    refine hcode.windows_apart ?_ x hx' hx
    grind

theorem mh_code_hooked : ∃ s : MinHook, s.items = [hookedEntry] ∧
    Reads s.buf.mem.bytes 0x401000 hookedEntry.code ∧
    Reads hookedApp.bytes 0x401000 hookedEntry.backup := by
  obtain ⟨s, hr, hitems, -, -⟩ := hookedCalls_run
  have hmem : hookedEntry ∈ s.items := hitems ▸ List.mem_singleton_self _
  exact ⟨s, hitems, (mh_code hr).2.1 _ hmem, ((mh_code hr).1 _ hmem).1⟩

/-- When the library is not initialized, the code is what it was and no page is held. -/
theorem Installed.restored {bs : List Block} (hI : Installed m₀ s bs) (hidle : s.g_hHeap = false) :
    (∀ x, Loaded m₀ (pageOf x) → s.buf.mem.bytes x = m₀.bytes x) ∧
    (∀ page, ¬ Loaded m₀ page → s.buf.mem.protection page = 0) ∧ s.buf.g_pMemoryBlocks = 0 := by
  have hitems : s.items = [] := by
    rw [MinHook.items, HookTable.items, hI.idle hidle]
    rfl
  have hslots := hI.slots
  have hcode := hI.code
  rw [hitems] at hslots hcode
  have hbs : bs = [] := by
    refine List.eq_nil_iff_forall_not_mem.mpr fun b hb => hslots.used b hb ?_
    refine List.eq_nil_iff_forall_not_mem.mpr fun p hp => ?_
    exact List.not_mem_nil (hslots.mem_live.mpr (Pool.mem_allocated.mpr ⟨b, hb, hp⟩))
  subst hbs
  exact ⟨fun x hx => hcode.rest x hx (List.forall_mem_nil _),
    fun page hpage => hslots.vacant page hpage (List.forall_mem_nil _), hslots.pool.chain⟩

/-- Whenever a run has come back to where the library is not initialized, nothing is left of it. -/
theorem mh_idle (hr : (mhMachine m₀).RunWhere (mhOk m₀) tr s) (hidle : s.g_hHeap = false) :
    (∀ x, Loaded m₀ (pageOf x) → s.buf.mem.bytes x = m₀.bytes x) ∧
    (∀ page, ¬ Loaded m₀ page → s.buf.mem.protection page = 0) ∧ s.buf.g_pMemoryBlocks = 0 := by
  obtain ⟨bs, hI⟩ := installed_of_run hr
  exact hI.restored hidle

theorem mh_idle_hooked : ∃ s : MinHook, ∃ tr, (MhCall.MH_CreateHook 0x401000 0x401100,
      calm (some 0x10000)) ∈ tr ∧ (mhMachine hookedApp).RunWhere (mhOk hookedApp) tr s ∧
    s.buf.mem.bytes 0x401000 = 0x85 ∧ s.buf.mem.protection (pageOf 0x10FE0) = 0 := by
  obtain ⟨s, hr, -, -, hstop⟩ := hookedCalls_run
  obtain ⟨⟨s', st⟩, hcall, hheap⟩ := Option.map_eq_some_iff.mp hstop
  have hstopped : (mhMachine hookedApp).step s ( MhCall.MH_Uninitialize, calm none) = some s' := by
    rw [mhMachine_step, hcall, Option.map_some]
  have hok : mhOk hookedApp s ( MhCall.MH_Uninitialize, calm none) := ⟨nofun, nofun⟩
  have hrun := hr.step _ hok hstopped
  have hcode : s'.buf.mem.bytes 0x401000 = hookedApp.bytes 0x401000 :=
    (mh_idle hrun hheap).1 0x401000 (show hookedApp.protection (pageOf 0x401000) ≠ 0 by decide)
  have hpage := (mh_idle hrun hheap).2.1 (pageOf 0x10FE0)
    (show ¬ hookedApp.protection (pageOf 0x10FE0) ≠ 0 by decide)
  exact ⟨s', _, List.mem_append_left _ (.tail _ (.head _)), hrun, hcode.trans (by decide), hpage⟩

/-- The trampolines do not overlap and can be executed, and the pages in use are theirs. The targets
are distinct, and the table has room for its entries. -/
theorem mh_slots (hr : (mhMachine m₀).RunWhere (mhOk m₀) tr s) :
    (s.items.Pairwise fun h g => h.pTarget ≠ g.pTarget ∧
      Region.Disjoint (w := 32) ⟨h.pTrampoline, 32⟩ ⟨g.pTrampoline, 32⟩) ∧
    (∀ h ∈ s.items, ∀ x ∈ (⟨h.pTrampoline, 32⟩ : Region 32), ¬ Loaded m₀ (pageOf x) ∧
      s.buf.mem.protection (pageOf x) = PAGE_EXECUTE_READWRITE) ∧
    (∀ page, ¬ Loaded m₀ page → s.buf.mem.protection page ≠ 0 →
      ∃ h ∈ s.items, pageOf h.pTrampoline = page) ∧
    s.items.length ≤ s.g_hooks.capacity := by
  obtain ⟨bs, hI⟩ := installed_of_run hr
  have hlive : ∀ {h}, h ∈ s.items → h.pTrampoline ∈ allocated bs := fun hh =>
    hI.slots.mem_live.mp (List.mem_map_of_mem hh)
  refine ⟨?_, fun h hh x hx => ⟨hI.slot_code hh hx, hI.slots.exec (List.mem_map_of_mem hh) hx⟩,
    fun page hpage hprot => ?_, hI.sized.fits⟩
  · have htargets := List.pairwise_map.mp hI.targets
    have hslots := List.pairwise_map.mp hI.slots.nodup
    refine (htargets.and hslots).imp_of_mem fun hh hg hne => ⟨hne.1, ?_⟩
    exact hI.slots.pool.allocated_disjoint (hlive hh) (hlive hg) hne.2
  · by_cases hblock : ∃ b ∈ bs, page = pageOf b.base
    · obtain ⟨b, hb, rfl⟩ := hblock
      obtain ⟨p, hp, hpage⟩ := hI.slots.page_of_block hb
      obtain ⟨h, hh, rfl⟩ := List.mem_map.mp hp
      exact ⟨h, hh, hpage⟩
    · exact absurd (hI.slots.vacant page hpage fun b hb heq => hblock ⟨b, hb, heq⟩) hprot

theorem mh_slots_hooked : ∃ s : MinHook, s.items = [hookedEntry] ∧
    s.buf.mem.protection (pageOf 0x10FE0) = PAGE_EXECUTE_READWRITE := by
  obtain ⟨s, hr, hitems, -, -⟩ := hookedCalls_run
  have hmem : hookedEntry ∈ s.items := hitems ▸ List.mem_singleton_self _
  exact ⟨s, hitems, ((mh_slots hr).2.1 _ hmem 0x10FE0 (by decide)).2⟩

end Runs

/-! ## The functions -/

section Functions

variable {m₀ : AddressSpace} {tr : List (MhCall × HookEnv)} {s : MinHook} {h : HookEntry}
  {σ : Type}

/-- A jump that was written is taken. -/
theorem step_jmpRel {m : DWORD → BYTE} {a dest : DWORD} (cpu : Processor σ)
    (hr : Reads m a (jmpRel 0xE9 (dest - (a + 5)))) (x : σ) : cpu.step m (x, a) = (x, dest) := by
  unfold Processor.step instFlow
  simp only [(flow_jmpRel hr).1]

/-- The short jump in front of the target. -/
theorem step_shortJump {m : DWORD → BYTE} {a : DWORD} (cpu : Processor σ)
    (hr : Reads m a [0xEB, 0xF9]) (x : σ) : cpu.step m (x, a) = (x, a - 5) := by
  have h0 : codeAt m a 0 = 0xEB := hr 0 (by simp)
  have h1 : codeAt m a 1 = 0xF9 := hr 1 (by simp)
  have hflow : (disasm m a).flow a = .jmp (a - 5) := by
    rw [disasm, hde32_disasm_shortJump h0 h1]
    have hdest : a + BitVec.ofNat 32 2 + (0xF9 : BitVec 8).signExtend 32 = a - 5 := by
      have hback : (BitVec.ofNat 32 2 + (0xF9 : BitVec 8).signExtend 32 : DWORD) = -5 := by decide
      rw [BitVec.add_assoc, hback]
      exact (BitVec.sub_eq_add_neg a 5).symm
    exact congrArg Flow.jmp hdest
  unfold Processor.step instFlow
  simp only [hflow]

/-- A function with an enabled hook goes to its detour, in at most two steps that change nothing. -/
theorem Installed.detour {bs : List Block} (hI : Installed m₀ s bs) (hh : h ∈ s.items)
    (hen : h.isEnabled) (cpu : Processor σ) (x : σ) :
    ∃ k ≤ 2, (cpu.step s.buf.mem.bytes)^[k] (x, h.pTarget) = (x, h.pDetour) := by
  have hjump := hI.code.enabled h hh hen
  obtain ⟨hlong, hshort⟩ := reads_append.mp hjump
  have hstep := step_jmpRel cpu hlong x
  cases hpa : h.patchAbove with
  | false =>
    have htarget : h.pPatchTarget = h.pTarget := by
      rw [HookEntry.pPatchTarget, hpa]
      rfl
    rw [htarget] at hstep
    exact ⟨1, by omega, hstep⟩
  | true =>
    have habove : h.pPatchTarget = h.pTarget - 5 := by
      rw [HookEntry.pPatchTarget, hpa]
      rfl
    have hsecond : h.pPatchTarget + BitVec.ofNat 32 5 = h.pTarget := by
      rw [habove]
      exact BitVec.sub_add_cancel h.pTarget 5
    rw [hpa, if_pos rfl, length_jmpRel, hsecond] at hshort
    refine ⟨2, Nat.le_refl 2, ?_⟩
    rw [Function.iterate_succ_apply, Function.iterate_one, step_shortJump cpu hshort, ← habove]
    exact hstep

/-- In every run the enabled hooks lead to their detours. -/
theorem mh_detour (hr : (mhMachine m₀).RunWhere (mhOk m₀) tr s) (hh : h ∈ s.items)
    (hen : h.isEnabled) (cpu : Processor σ) (x : σ) :
    ∃ k ≤ 2, (cpu.step s.buf.mem.bytes)^[k] (x, h.pTarget) = (x, h.pDetour) := by
  obtain ⟨bs, hI⟩ := installed_of_run hr
  exact hI.detour hh hen cpu x

theorem mh_detour_hooked : ∃ s : MinHook, s.items = [hookedEntry] ∧
    ∃ k ≤ 2, (stacked.step s.buf.mem.bytes)^[k] ((0, []), 0x401000) = ((0, []), 0x401100) := by
  obtain ⟨s, hr, hitems, -, -⟩ := hookedCalls_run
  have hmem : hookedEntry ∈ s.items := hitems ▸ List.mem_singleton_self _
  exact ⟨s, hitems, mh_detour hr hmem rfl stacked (0, [])⟩

/-- The trampoline of a hook does what the function did, whether or not the hook is enabled. -/
theorem Installed.original {bs : List Block} (hI : Installed m₀ s bs) (hh : h ∈ s.items)
    {cpu : Processor σ} {R : σ → σ → Prop} (hj : JumpsKept m₀.bytes h.pTarget h.ips)
    {e e' : σ × DWORD} (hfollows : Follows R h.pTarget h.pTrampoline h.ips e e') {N : Nat}
    (hrun : ∀ i < N, Answerable cpu R m₀.bytes s.buf.mem.bytes h.pTarget h.pTrampoline h.ips
      ((cpu.step m₀.bytes)^[i] e)) :
    ∃ k, Follows R h.pTarget h.pTrampoline h.ips ((cpu.step m₀.bytes)^[N] e)
      ((cpu.step s.buf.mem.bytes)^[k] e') := by
  have hmade := hI.made h hh
  have hspace := hmade.space.2
  exact stands_run hmade.stands hj (by omega) hfollows hrun

/-- In every run the trampoline of a hook does what the function did before the first call: whatever
the function came to in `N` steps, the trampoline comes to what is related. -/
theorem mh_original (hr : (mhMachine m₀).RunWhere (mhOk m₀) tr s) (hh : h ∈ s.items)
    (cpu : Processor σ) (R : σ → σ → Prop) (hj : JumpsKept m₀.bytes h.pTarget h.ips)
    {e e' : σ × DWORD} (hfollows : Follows R h.pTarget h.pTrampoline h.ips e e') {N : Nat}
    (hrun : ∀ i < N, Answerable cpu R m₀.bytes s.buf.mem.bytes h.pTarget h.pTrampoline h.ips
      ((cpu.step m₀.bytes)^[i] e)) :
    ∃ k, Follows R h.pTarget h.pTrampoline h.ips ((cpu.step m₀.bytes)^[N] e)
      ((cpu.step s.buf.mem.bytes)^[k] e') := by
  obtain ⟨bs, hI⟩ := installed_of_run hr
  exact hI.original hh hj hfollows hrun

/-- Where the hook has not overwritten the code. -/
theorem hooked_code (hr : (mhMachine hookedApp).RunWhere (mhOk hookedApp) tr s)
    (hitems : s.items = [hookedEntry]) {x : DWORD}
    (hx : x ∈ (⟨0x402000, 34⟩ : Region 32) ∨ x ∈ (⟨0x401009, 34⟩ : Region 32)) :
    s.buf.mem.bytes x = jumpFirst.bytes x := by
  obtain ⟨bs, hI⟩ := installed_of_run hr
  have hbounds : 0x401009 ≤ x.toNat ∧ x.toNat < 0x402022 := by
    rw [Region.mem_iff_toNat (by decide), Region.mem_iff_toNat (by decide)] at hx
    have h1 : (0x402000 : DWORD).toNat = 0x402000 := rfl
    have h2 : (0x401009 : DWORD).toNat = 0x401009 := rfl
    omega
  have hwindow : x ∉ hookedEntry.window := by
    intro hx'
    rw [show hookedEntry.window = (⟨0x401000, 5⟩ : Region 32) from rfl,
      Region.mem_iff_toNat (by decide)] at hx'
    have h1 : (0x401000 : DWORD).toNat = 0x401000 := rfl
    omega
  refine hI.code.rest x ?_ fun h hh _ hx' => ?_
  · -- the page is in use
    have hpage : pageOf x = 0x401 ∨ pageOf x = 0x402 := by
      rw [← BitVec.toNat_inj, ← BitVec.toNat_inj, toNat_pageOf]
      have h1 : (0x401 : Page).toNat = 0x401 := rfl
      have h2 : (0x402 : Page).toNat = 0x402 := rfl
      omega
    unfold Loaded hookedApp
    obtain hpage | hpage := hpage <;> rw [hpage] <;> decide
  · rw [hitems, List.mem_singleton] at hh
    subst hh
    exact hwindow hx'

theorem mh_original_hooked : ∃ s : MinHook, s.items = [hookedEntry] ∧ ∃ k,
    Follows (StacksMatch (Matches 0x401000 0x10FE0 jumpFirstIPs)) 0x401000 0x10FE0 jumpFirstIPs
      ((stacked.step hookedApp.bytes)^[5] ((0, [0x500000]), 0x401000))
      ((stacked.step s.buf.mem.bytes)^[k] ((0, [0x500000]), 0x10FE0)) := by
  obtain ⟨s, hr, hitems, -, -⟩ := hookedCalls_run
  have hmem : hookedEntry ∈ s.items := hitems ▸ List.mem_singleton_self _
  exact ⟨s, hitems, mh_original hr hmem stacked _ (by decide +kernel) (follows_jumpFirst 0x10FE0)
    (answerable_jumpFirst 0x10FE0 fun x hx => hooked_code hr hitems hx)⟩

end Functions

end Bossran
