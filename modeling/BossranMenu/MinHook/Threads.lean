import BossranMenu.MinHook.Hooked

/-!
# The other threads (`Freeze`, `Unfreeze`)

While code is overwritten the other threads of the process are suspended. A thread that stands at an
instruction that will be overwritten is moved to the trampoline, and one that stands in a trampoline
is moved back.

* `enumerateThreads_prefix`: the threads of the process are found, each once for each time that it
  is in the snapshot, up to the first failure of the heap.
* `mh_threads`: what a call does to the suspend count of a thread, whatever fails. The thread is
  moved along the boundaries of the hooks only.
* `mh_enable_thread`: when a hook is enabled, a thread that can be moved goes on with what the
  function did.
* `mh_remove_thread`: when a hook is removed, its slot is left exactly by the threads that can be
  moved, if the hook was enabled.
-/

namespace Bossran

open Memory Lockstep

/-! ## Enumeration -/

section Enumerate

variable {env : FreezeEnv}

/-- The identifiers of the other threads of the process. -/
def otherThreads (env : FreezeEnv) (tes : List ThreadEntry) : List DWORD :=
  (tes.filter (ThreadEntry.isOther env)).map ThreadEntry.th32ThreadID

theorem collectThreads_items (env : FreezeEnv) (tes : List ThreadEntry) (calls : Nat)
    (t : FrozenThreads) : ∃ found rest, otherThreads env tes = found ++ rest ∧
      (collectThreads env tes calls t).pItems.getD [] = t.pItems.getD [] ++ found ∧
      ((∀ n, env.heapAlloc n) → rest = []) := by
  induction tes generalizing calls t with
  | nil => exact ⟨[], [], rfl, by simp [collectThreads], fun _ => rfl⟩
  | cons te tes ih =>
    by_cases hother : te.isOther env
    · have hcons : otherThreads env (te :: tes) = te.th32ThreadID :: otherThreads env tes := by
        simp [otherThreads, hother]
      -- the entry was added, and the others follow
      have hadd : ∀ (calls : Nat) (t' : FrozenThreads),
          t'.pItems = some (t.pItems.getD [] ++ [te.th32ThreadID]) →
          ∃ found rest, otherThreads env (te :: tes) = found ++ rest ∧
            (collectThreads env tes calls t').pItems.getD [] = t.pItems.getD [] ++ found ∧
            ((∀ n, env.heapAlloc n) → rest = []) := by
        intro calls t' ht'
        obtain ⟨found, rest, hsplit, hitems, hall⟩ := ih calls t'
        refine ⟨te.th32ThreadID :: found, rest, ?_, ?_, hall⟩
        · rw [hcons, hsplit, List.cons_append]
        · rw [hitems, ht', Option.getD_some, List.append_assoc, List.singleton_append]
      -- the heap has failed
      have hstop : ¬ env.heapAlloc calls → ∀ t' : FrozenThreads, t'.pItems = t.pItems →
          ∃ found rest, otherThreads env (te :: tes) = found ++ rest ∧
            t'.pItems.getD [] = t.pItems.getD [] ++ found ∧
            ((∀ n, env.heapAlloc n) → rest = []) := by
        intro hfail t' ht'
        refine ⟨[], otherThreads env (te :: tes), rfl, ?_, fun hall => absurd (hall calls) hfail⟩
        rw [ht', List.append_nil]
      rw [collectThreads, if_pos hother]
      cases hitems : t.pItems with
      | none =>
        rw [hitems] at hadd hstop
        dsimp only
        by_cases halloc : env.heapAlloc calls
        · rw [if_pos halloc]
          exact hadd _ _ rfl
        · rw [if_neg halloc]
          exact hstop halloc _ rfl
      | some items =>
        rw [hitems] at hadd hstop
        dsimp only
        by_cases hfull : t.capacity ≤ items.length
        · rw [if_pos hfull]
          by_cases halloc : env.heapAlloc calls
          · rw [if_pos halloc]
            exact hadd _ _ rfl
          · rw [if_neg halloc]
            exact hstop halloc _ hitems
        · rw [if_neg hfull]
          exact hadd _ _ rfl
    · have hcons : otherThreads env (te :: tes) = otherThreads env tes := by
        simp [otherThreads, hother]
      rw [collectThreads, if_neg hother, hcons]
      exact ih calls t

/-- The threads are found in the order of the snapshot, all of them if the heap does not fail. -/
theorem enumerateThreads_prefix (env : FreezeEnv) :
    enumerateThreads env <+: otherThreads env (env.snapshot.getD []) ∧
    ((∀ n, env.heapAlloc n) →
      enumerateThreads env = otherThreads env (env.snapshot.getD [])) := by
  obtain ⟨found, rest, hsplit, hitems, hall⟩ :=
    collectThreads_items env (env.snapshot.getD []) 0 ⟨none, 0⟩
  have hfound : enumerateThreads env = found := hitems
  rw [hfound, hsplit]
  refine ⟨List.prefix_append found rest, fun h => ?_⟩
  rw [hall h, List.append_nil]

end Enumerate

/-! ## Suspending and resuming -/

section Freeze

variable {env : FreezeEnv} {items : List HookEntry} {pos : Option Nat} {action : FreezeAction}
  {id : DWORD} {ids : List DWORD}

/-- Each element of the list changes what the map has for it, as often as it is in the list. -/
theorem foldl_update {α : Type} (f : DWORD → α → α) (g : DWORD → α) :
    (ids.foldl (fun g i => Function.update g i (f i (g i))) g) id =
      (f id)^[ids.count id] (g id) := by
  induction ids generalizing g with
  | nil => rfl
  | cons i ids ih =>
    rw [List.foldl_cons, ih]
    by_cases hi : i = id
    · subst hi
      rw [List.count_cons_self, Function.update_self, Function.iterate_succ_apply]
    · rw [List.count_cons_of_ne hi, Function.update_of_ne (Ne.symm hi)]

/-- A thread after a round of `Freeze`. -/
def OtherThread.frozen (env : FreezeEnv) (items : List HookEntry) (pos : Option Nat)
    (action : FreezeAction) (id : DWORD) (t : OtherThread) : OtherThread :=
  freezeThread env items pos action (fun _ => t) id id

/-- A thread after a round of `Unfreeze`. -/
def OtherThread.thawed (env : FreezeEnv) (id : DWORD) (t : OtherThread) : OtherThread :=
  unfreezeThread env (fun _ => t) id id

theorem freezeThread_eq (threads : DWORD → OtherThread) (id : DWORD) :
    freezeThread env items pos action threads id =
      Function.update threads id ((threads id).frozen env items pos action id) := by
  unfold OtherThread.frozen freezeThread
  by_cases hopen : env.openThread id
  · simp only [if_pos hopen, Function.update_self]
  · simp only [if_neg hopen, Function.update_eq_self]

theorem unfreezeThread_eq (threads : DWORD → OtherThread) (id : DWORD) :
    unfreezeThread env threads id = Function.update threads id ((threads id).thawed env id) := by
  unfold OtherThread.thawed unfreezeThread
  by_cases hopen : env.reopenThread id
  · simp only [if_pos hopen, Function.update_self]
  · simp only [if_neg hopen, Function.update_eq_self]

/-- A thread after `Freeze` and `Unfreeze`. -/
def MinHook.refrozen (s : MinHook) (env : HookEnv) (pos : Option Nat) (action : FreezeAction)
    (id : DWORD) : OtherThread :=
  let n := (enumerateThreads env.freeze).count id
  (OtherThread.thawed env.freeze id)^[n]
    ((OtherThread.frozen env.freeze s.items pos action id)^[n] (s.threads id))

theorem unfreeze_threads (s : MinHook) (env : HookEnv) (pos : Option Nat) (action : FreezeAction)
    (mem : AddressSpace) (items : List HookEntry) :
    (((s.freeze env pos action).setPatched mem items).unfreeze env).threads =
      s.refrozen env pos action := by
  funext id
  have hthaw : unfreezeThread env.freeze = fun threads id =>
      Function.update threads id (OtherThread.thawed env.freeze id (threads id)) := by
    funext threads id
    exact unfreezeThread_eq threads id
  have hfreeze : freezeThread env.freeze s.items pos action = fun threads id =>
      Function.update threads id
        (OtherThread.frozen env.freeze s.items pos action id (threads id)) := by
    funext threads id
    exact freezeThread_eq threads id
  show (List.foldl (unfreezeThread env.freeze) (List.foldl (freezeThread env.freeze s.items pos
    action) s.threads (enumerateThreads env.freeze)) (enumerateThreads env.freeze)) id = _
  rw [hthaw, foldl_update, hfreeze, foldl_update]
  rfl

/-- A round of `Freeze` for a thread that can be opened. -/
theorem frozen_of_open (hopen : env.openThread id) (t : OtherThread) :
    t.frozen env items pos action id =
      if env.getThreadContext id ∧ env.setThreadContext id then
        { suspendThread t with eip := processThreadIPs items pos action t.eip }
      else suspendThread t := by
  unfold OtherThread.frozen freezeThread
  rw [if_pos hopen, Function.update_self]
  have heip : (suspendThread t).eip = t.eip := by
    unfold suspendThread
    split <;> rfl
  rw [heip]

theorem frozen_of_not_open (hopen : ¬ env.openThread id) (t : OtherThread) :
    t.frozen env items pos action id = t := by
  unfold OtherThread.frozen freezeThread
  rw [if_neg hopen]

theorem thawed_eip (t : OtherThread) : (t.thawed env id).eip = t.eip := by
  unfold OtherThread.thawed unfreezeThread
  split
  · rw [Function.update_self]
    rfl
  · rfl

theorem thawed_suspendCount (t : OtherThread) : (t.thawed env id).suspendCount =
    if env.reopenThread id then t.suspendCount - 1 else t.suspendCount := by
  unfold OtherThread.thawed unfreezeThread
  by_cases hopen : env.reopenThread id
  · rw [if_pos hopen, if_pos hopen, Function.update_self, resumeThread]
  · rw [if_neg hopen, if_neg hopen]

end Freeze

/-! ## What a call does to the threads -/

section Calls

variable {s s' : MinHook} {env : HookEnv} {c : MhCall} {st : MH_STATUS}

theorem enableHooks_threads (s : MinHook) (env : HookEnv) (want : HookEntry → Bool)
    (action : FreezeAction) : (s.enableHooks env want action).1.threads = s.threads ∨
      (s.enableHooks env want action).1.threads = s.refrozen env none action := by
  unfold MinHook.enableHooks
  split
  · exact .inl rfl
  · exact .inr (unfreeze_threads ..)

theorem enableOne_threads (s : MinHook) (env : HookEnv) (pos : Nat) (h : HookEntry)
    (action : FreezeAction) (enable : Bool) :
    (s.enableOne env pos h action enable).1.threads = s.refrozen env (some pos) action :=
  unfreeze_threads ..

theorem dropEntry_threads {pos : Nat} {pTrampoline : DWORD}
    (h : s.dropEntry env pos pTrampoline = some (s', st)) : s'.threads = s.threads := by
  obtain ⟨buf, -, heq⟩ := Option.map_eq_some_iff.mp h
  obtain ⟨rfl, -⟩ := Prod.mk.inj heq
  rfl

theorem createInSlot_threads {pTarget pDetour pBuffer : DWORD}
    (h : s.createInSlot env pTarget pDetour pBuffer = some (s', st)) : s'.threads = s.threads := by
  unfold MinHook.createInSlot at h
  dsimp only at h
  split at h
  · split at h
    · obtain ⟨rfl, -⟩ := Prod.mk.inj (Option.some.inj h)
      rfl
    · obtain ⟨buf, -, heq⟩ := Option.map_eq_some_iff.mp h
      obtain ⟨rfl, -⟩ := Prod.mk.inj heq
      rfl
  · obtain ⟨buf, -, heq⟩ := Option.map_eq_some_iff.mp h
    obtain ⟨rfl, -⟩ := Prod.mk.inj heq
    rfl

theorem createHook_threads {pTarget pDetour : DWORD}
    (h : s.MH_CreateHook env pTarget pDetour = some (s', st)) : s'.threads = s.threads := by
  unfold MinHook.MH_CreateHook at h
  by_cases hheap : s.g_hHeap
  · rw [if_pos hheap] at h
    split at h
    · cases hf : findHookEntry s.g_hooks pTarget with
      | none =>
        rw [hf] at h
        dsimp only at h
        cases halloc : allocateBuffer s.buf env.virtualAlloc with
        | none =>
          rw [halloc] at h
          cases h
        | some r =>
          obtain ⟨buf, pBuffer⟩ := r
          rw [halloc, Option.bind_some] at h
          dsimp only at h
          by_cases hp : pBuffer ≠ 0
          · rw [if_pos hp] at h
            have hslot := createInSlot_threads h
            exact hslot
          · rw [if_neg hp] at h
            obtain ⟨rfl, -⟩ := Prod.mk.inj (Option.some.inj h)
            rfl
      | some pos =>
        rw [hf] at h
        dsimp only at h
        obtain ⟨rfl, -⟩ := Prod.mk.inj (Option.some.inj h)
        rfl
    · obtain ⟨rfl, -⟩ := Prod.mk.inj (Option.some.inj h)
      rfl
  · rw [if_neg hheap] at h
    obtain ⟨rfl, -⟩ := Prod.mk.inj (Option.some.inj h)
    rfl

/-- The threads are frozen if the hook is enabled. -/
theorem removeHook_threads {pTarget : DWORD} (h : s.MH_RemoveHook env pTarget = some (s', st)) :
    s'.threads = match entryOf s.g_hooks pTarget with
      | some (pos, e) =>
        if s.g_hHeap ∧ e.isEnabled then s.refrozen env (some pos) .ACTION_DISABLE else s.threads
      | none => s.threads := by
  unfold MinHook.MH_RemoveHook at h
  by_cases hheap : s.g_hHeap
  · rw [if_pos hheap] at h
    cases hf : entryOf s.g_hooks pTarget with
    | none =>
      rw [hf] at h
      obtain ⟨rfl, -⟩ := Prod.mk.inj (Option.some.inj h)
      rfl
    | some found =>
      obtain ⟨pos, e⟩ := found
      rw [hf] at h
      dsimp only at h ⊢
      by_cases hen : e.isEnabled
      · rw [if_pos hen] at h
        rw [if_pos ⟨hheap, hen⟩, ← enableOne_threads s env pos e .ACTION_DISABLE false]
        generalize s.enableOne env pos e .ACTION_DISABLE false = r at h ⊢
        obtain ⟨s₁, st₁⟩ := r
        dsimp only at h ⊢
        split at h
        · rename_i heq
          obtain ⟨rfl, rfl⟩ := Prod.mk.inj heq
          exact dropEntry_threads h
        · rename_i heq
          obtain ⟨rfl, rfl⟩ := Prod.mk.inj heq
          obtain ⟨rfl, -⟩ := Prod.mk.inj (Option.some.inj h)
          rfl
      · rw [if_neg hen] at h
        rw [if_neg fun hboth => hen hboth.2]
        exact dropEntry_threads h
  · rw [if_neg hheap] at h
    obtain ⟨rfl, -⟩ := Prod.mk.inj (Option.some.inj h)
    cases entryOf s.g_hooks pTarget with
    | none => rfl
    | some found =>
      dsimp only
      rw [if_neg fun hboth => hheap hboth.1]

theorem uninitialize_threads (h : s.MH_Uninitialize env = some (s', st)) :
    s'.threads = s.threads ∨ s'.threads = s.refrozen env none .ACTION_DISABLE := by
  unfold MinHook.MH_Uninitialize at h
  by_cases hheap : s.g_hHeap
  · rw [if_pos hheap] at h
    have hthreads := enableHooks_threads s env (fun _ => false) .ACTION_DISABLE
    have hall : s.enableAllHooksLL env false =
        s.enableHooks env (fun _ => false) .ACTION_DISABLE := rfl
    rw [← hall] at hthreads
    generalize s.enableAllHooksLL env false = r at h hthreads
    obtain ⟨s₁, st₁⟩ := r
    dsimp only at h hthreads
    split at h
    · rename_i heq
      obtain ⟨rfl, rfl⟩ := Prod.mk.inj heq
      obtain ⟨buf, -, heq⟩ := Option.map_eq_some_iff.mp h
      obtain ⟨rfl, -⟩ := Prod.mk.inj heq
      exact hthreads
    · rename_i heq
      obtain ⟨rfl, rfl⟩ := Prod.mk.inj heq
      obtain ⟨rfl, -⟩ := Prod.mk.inj (Option.some.inj h)
      exact hthreads
  · rw [if_neg hheap] at h
    obtain ⟨rfl, -⟩ := Prod.mk.inj (Option.some.inj h)
    exact .inl rfl

theorem enableHook_threads (s : MinHook) (env : HookEnv) (pTarget : DWORD) (enable : Bool) :
    (s.enableHook env pTarget enable).1.threads = s.threads ∨ ∃ pos action,
      (s.enableHook env pTarget enable).1.threads = s.refrozen env pos action := by
  unfold MinHook.enableHook
  split
  · split
    · exact (enableHooks_threads ..).imp_right fun h => ⟨_, _, h⟩
    · split
      · split
        · exact .inr ⟨_, _, enableOne_threads ..⟩
        · exact .inl rfl
      · exact .inl rfl
  · exact .inl rfl

/-- A call leaves the other threads alone, or it freezes them once. -/
theorem mhCall_threads (h : mhCall s env c = some (s', st)) :
    s'.threads = s.threads ∨ ∃ pos action, s'.threads = s.refrozen env pos action := by
  cases c with
  | MH_Initialize =>
    have hs : (s.MH_Initialize env).1.threads = s.threads := by
      unfold MinHook.MH_Initialize
      grind
    rw [← hs, Option.some.inj h]
    exact .inl rfl
  | MH_Uninitialize => exact (uninitialize_threads h).imp_right fun h => ⟨_, _, h⟩
  | MH_CreateHook t d => exact .inl (createHook_threads h)
  | MH_RemoveHook t =>
    rw [removeHook_threads h]
    split
    · split
      · exact .inr ⟨_, _, rfl⟩
      · exact .inl rfl
    · exact .inl rfl
  | EnableHook t e =>
    have hs := enableHook_threads s env t e
    have heq : s.enableHook env t e = (s', st) := by
      cases e with
      | true => exact Option.some.inj h
      | false => exact Option.some.inj h
    rwa [heq] at hs
  | QueueHook t q =>
    have hs : (s.queueHook t q).1.threads = s.threads := by
      unfold MinHook.queueHook
      grind
    have heq : s.queueHook t q = (s', st) := by
      cases q with
      | true => exact Option.some.inj h
      | false => exact Option.some.inj h
    rw [heq] at hs
    exact .inl hs
  | MH_ApplyQueued =>
    have hs : (s.MH_ApplyQueued env).1.threads = s.threads ∨
        (s.MH_ApplyQueued env).1.threads = s.refrozen env none .ACTION_APPLY_QUEUED := by
      unfold MinHook.MH_ApplyQueued
      split
      · exact enableHooks_threads ..
      · exact .inl rfl
    rw [Option.some.inj h] at hs
    exact hs.imp_right fun h => ⟨_, _, h⟩

end Calls

/-! ## A thread -/

section Busy

/-- The process has a second thread, and there is another process. -/
def busy : HookEnv :=
  { calm none with
    freeze := { (calm none).freeze with
      processId := 1
      threadId := 5
      snapshot := some [⟨28, 1, 5⟩, ⟨28, 1, 7⟩, ⟨28, 2, 8⟩] } }

theorem enumerateThreads_busy : enumerateThreads busy.freeze = [7] := by decide

theorem hookedCreate_busy : (hookedCreate.map fun r =>
    let r' := r.1.MH_EnableHook busy 0x401000
    (r.1.items, (r.1.threads 7).eip, r'.2, r'.1.items)) =
      some ([hookedEntry.set false], 0x401002, .MH_OK, [hookedEntry]) := by
  decide +kernel

theorem hookedCreate_enabled : (hookedCreate.map fun r =>
    let s := (r.1.MH_EnableHook busy 0x401000).1
    (s.items, (s.threads 7).eip, (s.MH_RemoveHook busy 0x401000).map Prod.snd)) =
      some ([hookedEntry], 0x10FE2, some .MH_OK) := by
  decide +kernel

theorem busy_ok {m₀ : AddressSpace} {s : MinHook} {c : MhCall}
    (hc : ∀ t d, c ≠ .MH_CreateHook t d) : mhOk m₀ s (c, busy) := by
  refine ⟨fun b hb => ?_, fun t d h => absurd h (hc t d)⟩
  cases hb

theorem mhCall_enable_status {s : MinHook} {env : HookEnv} {t : DWORD} {st : MH_STATUS}
    (hst : (s.MH_EnableHook env t).2 = st) :
    mhCall s env (.EnableHook t true) = some ((s.MH_EnableHook env t).1, st) := by
  subst hst
  exact mhCall_enableHook

end Busy

/-! ## Where the threads go -/

section Moves

variable {items : List HookEntry} {h : HookEntry} {eip : DWORD} {action : FreezeAction}
  {s s' : MinHook} {env : HookEnv} {c : MhCall} {st : MH_STATUS} {id : DWORD}

theorem findNewIP_cases (h : HookEntry) (ip : DWORD) :
    (∃ p ∈ h.ips, ip = h.pTarget + BitVec.ofNat 32 p.1 ∧
      findNewIP h ip = h.pTrampoline + BitVec.ofNat 32 p.2) ∨
    ((∀ p ∈ h.ips, ip ≠ h.pTarget + BitVec.ofNat 32 p.1) ∧ findNewIP h ip = 0) := by
  unfold findNewIP
  split
  · rename_i p hp
    exact .inl ⟨p, List.mem_of_find?_eq_some hp, by simpa using List.find?_some hp, rfl⟩
  · rename_i hnone
    exact .inr ⟨fun p hp => by simpa using List.find?_eq_none.mp hnone p hp, rfl⟩

theorem findOldIP_cases (h : HookEntry) (ip : DWORD) :
    (h.patchAbove ∧ ip = h.pTarget - 5 ∧ findOldIP h ip = h.pTarget) ∨
    (∃ p ∈ h.ips, ip = h.pTrampoline + BitVec.ofNat 32 p.2 ∧
      findOldIP h ip = h.pTarget + BitVec.ofNat 32 p.1) ∨
    ((∀ p ∈ h.ips, ip ≠ h.pTrampoline + BitVec.ofNat 32 p.2) ∧ findOldIP h ip = 0) := by
  unfold findOldIP
  split
  · rename_i habove
    exact .inl ⟨habove.1, habove.2, rfl⟩
  · split
    · rename_i p hp
      exact .inr (.inl ⟨p, List.mem_of_find?_eq_some hp, by simpa using List.find?_some hp, rfl⟩)
    · rename_i hnone
      exact .inr (.inr ⟨fun p hp => by simpa using List.find?_eq_none.mp hnone p hp, rfl⟩)

/-- From a boundary of a hook to the same boundary on the other side, or from the jump above the
target to the target. -/
inductive Moved (items : List HookEntry) : DWORD → DWORD → Prop
  | enter {h : HookEntry} {p : Nat × Nat} : h ∈ items → p ∈ h.ips →
    Moved items (h.pTarget + BitVec.ofNat 32 p.1) (h.pTrampoline + BitVec.ofNat 32 p.2)
  | leave {h : HookEntry} {p : Nat × Nat} : h ∈ items → p ∈ h.ips →
    Moved items (h.pTrampoline + BitVec.ofNat 32 p.2) (h.pTarget + BitVec.ofNat 32 p.1)
  | above {h : HookEntry} : h ∈ items → h.patchAbove → Moved items (h.pTarget - 5) h.pTarget

theorem processHook_moved (action : FreezeAction) (eip : DWORD) (hh : h ∈ items) :
    processHook action eip h = eip ∨ Moved items eip (processHook action eip h) := by
  unfold processHook
  by_cases hsame : h.isEnabled = action.enable h
  · exact .inl (if_pos hsame)
  rw [if_neg hsame]
  dsimp only
  by_cases hen : action.enable h
  · rw [if_pos hen]
    obtain ⟨p, hp, heip, hnew⟩ | ⟨-, hnew⟩ := findNewIP_cases h eip
    · rw [hnew, heip]
      split
      · exact .inr (.enter hh hp)
      · exact .inl rfl
    · rw [hnew]
      exact .inl (if_neg (not_not.mpr rfl))
  · rw [if_neg hen]
    obtain ⟨habove, heip, hold⟩ | ⟨p, hp, heip, hold⟩ | ⟨-, hold⟩ := findOldIP_cases h eip
    · rw [hold, heip]
      split
      · exact .inr (.above hh habove)
      · exact .inl rfl
    · rw [hold, heip]
      split
      · exact .inr (.leave hh hp)
      · exact .inl rfl
    · rw [hold]
      exact .inl (if_neg (not_not.mpr rfl))

theorem processThreadIPs_moved (items : List HookEntry) (pos : Option Nat) (action : FreezeAction)
    (eip : DWORD) :
    Relation.ReflTransGen (Moved items) eip (processThreadIPs items pos action eip) := by
  have hfold : ∀ (hs : List HookEntry) (eip : DWORD), (∀ h ∈ hs, h ∈ items) →
      Relation.ReflTransGen (Moved items) eip (hs.foldl (processHook action) eip) := by
    intro hs
    induction hs with
    | nil => exact fun _ _ => .refl
    | cons h hs ih =>
      intro eip hsub
      rw [List.foldl_cons]
      have hrest := ih (processHook action eip h) fun g hg => hsub g (List.mem_cons_of_mem _ hg)
      obtain hstay | hmove := processHook_moved action eip (hsub h (List.mem_cons_self ..))
      · rw [hstay] at hrest ⊢
        exact hrest
      · exact .head hmove hrest
  unfold processThreadIPs
  cases pos with
  | none => exact hfold items eip fun _ hh => hh
  | some pos =>
    apply hfold
    intro h hh
    exact List.mem_of_getElem? (Option.mem_toList.mp hh)

theorem suspendThread_count (t : OtherThread) : (suspendThread t).suspendCount =
    max t.suspendCount (min (t.suspendCount + 1) MAXIMUM_SUSPEND_COUNT) := by
  unfold suspendThread
  split
  · dsimp only
    omega
  · omega

/-- `n` rounds of `Freeze`. -/
theorem frozen_iterate (env : FreezeEnv) (items : List HookEntry) (pos : Option Nat)
    (action : FreezeAction) (id : DWORD) (t : OtherThread) (n : Nat) :
    ((OtherThread.frozen env items pos action id)^[n] t).suspendCount =
      (if env.openThread id then
        max t.suspendCount (min (t.suspendCount + n) MAXIMUM_SUSPEND_COUNT) else t.suspendCount) ∧
    ((OtherThread.frozen env items pos action id)^[n] t).eip =
      (if env.openThread id ∧ env.getThreadContext id ∧ env.setThreadContext id then
        (processThreadIPs items pos action)^[n] t.eip else t.eip) := by
  induction n with
  | zero =>
    constructor
    · rw [Function.iterate_zero_apply]
      split <;> omega
    · rw [Function.iterate_zero_apply, Function.iterate_zero_apply, ite_self]
  | succ n ih =>
    obtain ⟨hcount, heip⟩ := ih
    simp only [Function.iterate_succ_apply']
    generalize (OtherThread.frozen env items pos action id)^[n] t = u at hcount heip
    by_cases ho : env.openThread id
    · rw [if_pos ho] at hcount
      rw [if_pos ho, frozen_of_open ho]
      have hsus := suspendThread_count u
      have hkeep : (suspendThread u).eip = u.eip := by
        unfold suspendThread
        split <;> rfl
      by_cases hctx : env.getThreadContext id ∧ env.setThreadContext id
      · rw [if_pos ⟨ho, hctx⟩] at heip
        rw [if_pos hctx, if_pos ⟨ho, hctx⟩]
        exact ⟨by dsimp only; omega, congrArg (processThreadIPs items pos action) heip⟩
      · rw [if_neg fun h => hctx h.2] at heip
        rw [if_neg hctx, if_neg fun h => hctx h.2]
        exact ⟨by omega, hkeep.trans heip⟩
    · rw [if_neg ho] at hcount
      rw [if_neg fun h => ho h.1] at heip
      rw [if_neg ho, if_neg fun h => ho h.1, frozen_of_not_open ho]
      exact ⟨hcount, heip⟩

/-- `n` rounds of `Unfreeze`. -/
theorem thawed_iterate (env : FreezeEnv) (id : DWORD) (t : OtherThread) (n : Nat) :
    ((OtherThread.thawed env id)^[n] t).suspendCount =
      (if env.reopenThread id then t.suspendCount - n else t.suspendCount) ∧
    ((OtherThread.thawed env id)^[n] t).eip = t.eip := by
  induction n with
  | zero => exact ⟨by simp, rfl⟩
  | succ n ih =>
    obtain ⟨hcount, heip⟩ := ih
    rw [Function.iterate_succ_apply']
    refine ⟨?_, (thawed_eip _).trans heip⟩
    rw [thawed_suspendCount, hcount]
    split <;> omega

/-- The suspend count of a thread that is `n` times in the snapshot, after `Freeze` and `Unfreeze`.
It does not get above `MAXIMUM_SUSPEND_COUNT`, and a thread that cannot be opened is passed over. -/
def FreezeEnv.countAfter (env : FreezeEnv) (id : DWORD) (count : Nat) : Nat :=
  let n := (enumerateThreads env).count id
  let frozen :=
    if env.openThread id then max count (min (count + n) MAXIMUM_SUSPEND_COUNT) else count
  if env.reopenThread id then frozen - n else frozen

/-- A thread is resumed as often as it was suspended, if it can be opened both times or neither. -/
theorem FreezeEnv.countAfter_eq (env : FreezeEnv) {count : Nat}
    (hopen : env.openThread id = env.reopenThread id)
    (hmax : count + (enumerateThreads env).count id ≤ MAXIMUM_SUSPEND_COUNT) :
    env.countAfter id count = count := by
  unfold FreezeEnv.countAfter
  rw [← hopen]
  dsimp only
  split <;> omega

theorem refrozen_suspendCount (s : MinHook) (env : HookEnv) (pos : Option Nat)
    (action : FreezeAction) (id : DWORD) : (s.refrozen env pos action id).suspendCount =
      env.freeze.countAfter id (s.threads id).suspendCount := by
  unfold MinHook.refrozen FreezeEnv.countAfter
  dsimp only
  rw [(thawed_iterate ..).1, (frozen_iterate ..).1]

theorem refrozen_eip (s : MinHook) (env : HookEnv) (pos : Option Nat) (action : FreezeAction)
    (id : DWORD) : (s.refrozen env pos action id).eip =
      if env.freeze.openThread id ∧ env.freeze.getThreadContext id ∧
          env.freeze.setThreadContext id then
        (processThreadIPs s.items pos action)^[(enumerateThreads env.freeze).count id]
          (s.threads id).eip
      else (s.threads id).eip := by
  unfold MinHook.refrozen
  dsimp only
  rw [(thawed_iterate ..).2, (frozen_iterate ..).2]

theorem refrozen_moved (s : MinHook) (env : HookEnv) (pos : Option Nat) (action : FreezeAction)
    (id : DWORD) : Relation.ReflTransGen (Moved s.items) (s.threads id).eip
      (s.refrozen env pos action id).eip := by
  rw [refrozen_eip]
  split
  · generalize (enumerateThreads env.freeze).count id = n
    induction n with
    | zero => exact .refl
    | succ n ih =>
      rw [Function.iterate_succ_apply']
      exact ih.trans (processThreadIPs_moved ..)
  · exact .refl

/-- A call leaves a thread alone, or suspends and resumes it, whatever fails; a thread that can be
opened both times is resumed as often as it was suspended. It is moved along the boundaries of the
hooks only. -/
theorem mh_threads (hcall : mhCall s env c = some (s', st)) (id : DWORD) :
    (s'.threads id = s.threads id ∨ (s'.threads id).suspendCount =
      env.freeze.countAfter id (s.threads id).suspendCount) ∧
    (env.freeze.openThread id = env.freeze.reopenThread id →
      (s.threads id).suspendCount + (enumerateThreads env.freeze).count id ≤
        MAXIMUM_SUSPEND_COUNT → (s'.threads id).suspendCount = (s.threads id).suspendCount) ∧
    Relation.ReflTransGen (Moved s.items) (s.threads id).eip (s'.threads id).eip := by
  obtain hsame | ⟨pos, action, hthreads⟩ := mhCall_threads hcall
  · rw [hsame]
    exact ⟨.inl rfl, fun _ _ => rfl, .refl⟩
  · rw [hthreads]
    have hcount := refrozen_suspendCount s env pos action id
    refine ⟨.inr hcount, fun hopen hmax => ?_, refrozen_moved s env pos action id⟩
    rw [hcount, env.freeze.countAfter_eq hopen hmax]

theorem mh_threads_busy : ∃ s s' : MinHook, mhCall s busy (.EnableHook 0x401000 true) =
      some (s', .MH_OK) ∧ (s'.threads 7).suspendCount = (s.threads 7).suspendCount ∧
    Relation.ReflTransGen (Moved s.items) (s.threads 7).eip (s'.threads 7).eip := by
  obtain ⟨⟨s, st⟩, hcreate, hspec⟩ := Option.map_eq_some_iff.mp hookedCreate_busy
  obtain ⟨-, hspec⟩ := Prod.mk.inj hspec
  obtain ⟨-, hspec⟩ := Prod.mk.inj hspec
  obtain ⟨hst, -⟩ := Prod.mk.inj hspec
  have hcall := mhCall_enable_status hst
  unfold hookedCreate mhCall at hcreate
  have hthreads := createHook_threads hcreate
  have hmax : (s.threads 7).suspendCount + (enumerateThreads busy.freeze).count 7 ≤
      MAXIMUM_SUSPEND_COUNT := by
    rw [hthreads, enumerateThreads_busy, hookedStart]
    decide
  obtain ⟨-, hcount, hmoved⟩ := mh_threads hcall 7
  exact ⟨s, _, hcall, hcount rfl hmax, hmoved⟩

end Moves

/-! ## Going on -/

section Going

variable {m₀ : AddressSpace} {tr : List (MhCall × HookEnv)} {s s' : MinHook} {bs : List Block}
  {env : HookEnv} {h : HookEntry} {id : DWORD} {σ : Type}

/-- The boundaries lie in the code that was read, and in the slot, in this order. -/
theorem Made.ips {m : AddressSpace} (hm : Made m₀ m h) :
    (∀ p ∈ h.ips, p.1 ≤ 19 ∧ p.2 < 32) ∧ h.ips.Pairwise fun p q => p.1 < q.1 ∧ p.2 < q.2 := by
  have hT := hm.stands.translation m.bytes fun _ _ => rfl
  exact ⟨fun p hp => ⟨hT.fst_le (Nat.zero_le 19) p hp, hm.stands.lt p hp⟩, hm.stands.sorted⟩

/-- A boundary of the function is not in the slot. -/
theorem Made.boundary_ne {m : AddressSpace} (hm : Made m₀ m h) {p q : Nat × Nat} (hp : p ∈ h.ips)
    (hq : q ∈ h.ips) : h.pTarget + BitVec.ofNat 32 p.1 ≠ h.pTrampoline + BitVec.ofNat 32 q.2 := by
  have htarget : h.pTarget + BitVec.ofNat 32 p.1 ∈ targetCode h.pTarget :=
    mem_target (Nat.lt_succ_of_le (hm.ips.1 p hp).1)
  have hslot : h.pTrampoline + BitVec.ofNat 32 q.2 ∈ (⟨h.pTrampoline, 32⟩ : Region 32) :=
    Region.add_mem (r := ⟨h.pTrampoline, 32⟩) (hm.ips.1 q hq).2
  exact fun heq => hm.slot _ hslot (heq ▸ htarget)

/-- The address in front of the target is not in the slot, and no boundary. -/
theorem Made.above_ne {m : AddressSpace} (hm : Made m₀ m h) {p : Nat × Nat} (hp : p ∈ h.ips) :
    h.pTarget - 5 ≠ h.pTrampoline + BitVec.ofNat 32 p.2 ∧
    h.pTarget - 5 ≠ h.pTarget + BitVec.ofNat 32 p.1 := by
  have hle := hm.ips.1 p hp
  constructor
  · have habove : h.pTarget - 5 ∈ targetCode h.pTarget := by simp [Region.mem_iff]
    have hslot : h.pTrampoline + BitVec.ofNat 32 p.2 ∈ (⟨h.pTrampoline, 32⟩ : Region 32) :=
      Region.add_mem (r := ⟨h.pTrampoline, 32⟩) hle.2
    exact fun heq => hm.slot _ hslot (heq ▸ habove)
  · intro heq
    have hoff := congrArg (fun x => (x - h.pTarget).toNat) heq
    have habove : h.pTarget - 5 - h.pTarget = -5 := by ring
    rw [offset_add h.pTarget (by omega), habove] at hoff
    have h5 : (-5 : DWORD).toNat = 4294967291 := rfl
    omega

theorem Made.target_ne_zero {m : AddressSpace} (hm : Made m₀ m h) {k : Nat} (hk : k ≤ 19) :
    h.pTarget + BitVec.ofNat 32 k ≠ 0 := by
  obtain ⟨hlow, hhigh⟩ := hm.space
  intro h0
  have hsum := congrArg BitVec.toNat h0
  rw [BitVec.toNat_add, BitVec.toNat_ofNat, Nat.mod_eq_of_lt (by omega : k < 2 ^ 32),
    Nat.mod_eq_of_lt (by omega), show (0 : DWORD).toNat = 0 from rfl] at hsum
  omega

theorem Made.pTarget_ne_zero {m : AddressSpace} (hm : Made m₀ m h) : h.pTarget ≠ 0 := by
  have hne := hm.target_ne_zero (Nat.zero_le 19)
  rwa [show h.pTarget + BitVec.ofNat 32 0 = h.pTarget from BitVec.add_zero h.pTarget] at hne

theorem Installed.slot_ne_zero (hI : Installed m₀ s bs) (hh : h ∈ s.items) {k : Nat} (hk : k < 32) :
    h.pTrampoline + BitVec.ofNat 32 k ≠ 0 := by
  have hx : h.pTrampoline + BitVec.ofNat 32 k ∈ (⟨h.pTrampoline, 32⟩ : Region 32) :=
    Region.add_mem (r := ⟨h.pTrampoline, 32⟩) hk
  have hlive := hI.slots.mem_live.mp (List.mem_map_of_mem (f := HookEntry.pTrampoline) hh)
  obtain ⟨b, hb, hpage⟩ := hI.slots.pool.pageOf_slot hlive hx
  have hbase : b.base ≠ 0 := hI.slots.pool.chain.ne_null b.base (List.mem_map_of_mem hb)
  have haligned : b.base.toNat % 4096 = 0 := (hI.slots.pool.blocks b hb).aligned
  intro hzero
  -- the page of the block would be the first one
  have hpage' := congrArg BitVec.toNat hpage
  rw [hzero, toNat_pageOf, toNat_pageOf] at hpage'
  apply hbase
  apply BitVec.eq_of_toNat_eq
  show b.base.toNat = 0
  have h0 : (0 : DWORD).toNat = 0 := rfl
  omega

theorem Installed.heap_of_mem (hI : Installed m₀ s bs) (hh : h ∈ s.items) : s.g_hHeap = true := by
  by_contra hheap
  have hnone := hI.idle (Bool.eq_false_iff.mpr hheap)
  rw [MinHook.items, HookTable.items, hnone] at hh
  exact List.not_mem_nil hh

/-- A hook is found. -/
theorem Installed.entry_self (hI : Installed m₀ s bs) (hh : h ∈ s.items) : ∃ pre post,
    s.items = pre ++ h :: post ∧ entryOf s.g_hooks h.pTarget = some (pre.length, h) := by
  cases hf : entryOf s.g_hooks h.pTarget with
  | none => exact absurd rfl (entryOf_none hf h hh)
  | some found =>
    obtain ⟨pos, g⟩ := found
    obtain ⟨ht, pre, post, hitems, rfl, -⟩ := hI.entry hf
    have hg : g ∈ s.items := hitems ▸ List.mem_append_right _ (List.mem_cons_self ..)
    obtain rfl := List.inj_on_of_nodup_map hI.targets hg hh ht
    exact ⟨pre, post, hitems, rfl⟩

theorem processThreadIPs_at {pre post : List HookEntry} (action : FreezeAction) (eip : DWORD) :
    processThreadIPs (pre ++ h :: post) (some pre.length) action eip =
      processHook action eip h := by
  unfold processThreadIPs
  dsimp only
  rw [List.getElem?_append_right (Nat.le_refl _), Nat.sub_self]
  rfl

/-- The call that enables one hook. -/
theorem enableHook_one {pre post : List HookEntry} (hI : Installed m₀ s bs)
    (hitems : s.items = pre ++ h :: post)
    (hentry : entryOf s.g_hooks h.pTarget = some (pre.length, h)) (hoff : ¬ h.isEnabled) :
    s.MH_EnableHook env h.pTarget = s.enableOne env pre.length h .ACTION_ENABLE true := by
  have hh : h ∈ s.items := hitems ▸ List.mem_append_right _ (List.mem_cons_self ..)
  have hall : h.pTarget ≠ MH_ALL_HOOKS := (hI.made h hh).pTarget_ne_zero
  unfold MinHook.MH_EnableHook MinHook.enableHook
  rw [if_pos (hI.heap_of_mem hh), if_neg hall, hentry]
  exact if_pos hoff

/-- The thread is found and opened, and its context is read and written. -/
def FreezeEnv.Movable (env : FreezeEnv) (id : DWORD) : Prop :=
  id ∈ enumerateThreads env ∧ env.openThread id ∧ env.getThreadContext id ∧ env.setThreadContext id

instance (env : FreezeEnv) (id : DWORD) : Decidable (env.Movable id) :=
  inferInstanceAs (Decidable (_ ∧ _))

/-- The way into the slot. -/
theorem Installed.findNewIP_slot (hI : Installed m₀ s bs) (hh : h ∈ s.items) {p : Nat × Nat}
    (hp : p ∈ h.ips) : findNewIP h (h.pTrampoline + BitVec.ofNat 32 p.2) = 0 := by
  obtain ⟨q, hq, heq, -⟩ | ⟨-, hnew⟩ := findNewIP_cases h (h.pTrampoline + BitVec.ofNat 32 p.2)
  · exact absurd heq.symm ((hI.made h hh).boundary_ne hq hp)
  · exact hnew

/-- The way back from the slot. -/
theorem Installed.findOldIP_boundary (hI : Installed m₀ s bs) (hh : h ∈ s.items) {p : Nat × Nat}
    (hp : p ∈ h.ips) : findOldIP h (h.pTrampoline + BitVec.ofNat 32 p.2) =
      h.pTarget + BitVec.ofNat 32 p.1 := by
  have hmade := hI.made h hh
  obtain ⟨hle, hsorted⟩ := hmade.ips
  obtain ⟨-, habove, -⟩ | ⟨q, hq, heq, hold⟩ | ⟨hnone, -⟩ :=
    findOldIP_cases h (h.pTrampoline + BitVec.ofNat 32 p.2)
  · exact absurd habove.symm (hmade.above_ne hp).1
  · have hinj := congrArg (fun x => (x - h.pTrampoline).toNat) heq
    rw [offset_add _ (by have := (hle p hp).2; omega),
      offset_add _ (by have := (hle q hq).2; omega)] at hinj
    have hnd : (h.ips.map Prod.snd).Nodup :=
      List.pairwise_map.mpr (hsorted.imp fun hlt => Nat.ne_of_lt hlt.2)
    obtain rfl := List.inj_on_of_nodup_map hnd hp hq hinj
    exact hold
  · exact absurd rfl (hnone p hp)

theorem Installed.findOldIP_target (hI : Installed m₀ s bs) (hh : h ∈ s.items) {p : Nat × Nat}
    (hp : p ∈ h.ips) : findOldIP h (h.pTarget + BitVec.ofNat 32 p.1) = 0 := by
  have hmade := hI.made h hh
  obtain ⟨-, habove, -⟩ | ⟨q, hq, heq, -⟩ | ⟨-, hold⟩ :=
    findOldIP_cases h (h.pTarget + BitVec.ofNat 32 p.1)
  · exact absurd habove.symm (hmade.above_ne hp).2
  · exact absurd heq (hmade.boundary_ne hp hq)
  · exact hold

/-- A thread enters the slot from a boundary. -/
theorem Installed.enter_cases (hI : Installed m₀ s bs) (hh : h ∈ s.items) {action : FreezeAction}
    (hchange : ¬ h.isEnabled = action.enable h) (hen : action.enable h) (eip : DWORD) :
    (∃ p ∈ h.ips, eip = h.pTarget + BitVec.ofNat 32 p.1 ∧
      processHook action eip h = h.pTrampoline + BitVec.ofNat 32 p.2) ∨
    ((∀ p ∈ h.ips, eip ≠ h.pTarget + BitVec.ofNat 32 p.1) ∧ processHook action eip h = eip) := by
  rw [processHook, if_neg hchange, if_pos hen]
  dsimp only
  obtain ⟨p, hp, heip, hnew⟩ | ⟨hnone, hnew⟩ := findNewIP_cases h eip
  · refine .inl ⟨p, hp, heip, ?_⟩
    rw [hnew]
    exact if_pos (hI.slot_ne_zero hh ((hI.made h hh).ips.1 p hp).2)
  · refine .inr ⟨hnone, ?_⟩
    rw [hnew]
    exact if_neg (not_not.mpr rfl)

/-- A thread leaves the slot, or the jump above the target. -/
theorem Installed.leave_cases (hI : Installed m₀ s bs) (hh : h ∈ s.items) {action : FreezeAction}
    (hchange : ¬ h.isEnabled = action.enable h) (hdis : ¬ action.enable h) (eip : DWORD) :
    (∃ p ∈ h.ips, processHook action eip h = h.pTarget + BitVec.ofNat 32 p.1) ∨
    processHook action eip h = eip := by
  have hmade := hI.made h hh
  rw [processHook, if_neg hchange, if_neg hdis]
  dsimp only
  obtain ⟨-, -, hold⟩ | ⟨p, hp, -, hold⟩ | ⟨-, hold⟩ := findOldIP_cases h eip
  · have hhead := (hmade.stands.translation _ fun _ _ => rfl).head
    refine .inl ⟨(0, 0), hhead, ?_⟩
    rw [hold, if_pos hmade.pTarget_ne_zero]
    exact (BitVec.add_zero h.pTarget).symm
  · refine .inl ⟨p, hp, ?_⟩
    rw [hold]
    exact if_pos (hmade.target_ne_zero (hmade.ips.1 p hp).1)
  · refine .inr ?_
    rw [hold]
    exact if_neg (not_not.mpr rfl)

/-- A thread that has been moved is not moved again. -/
theorem Installed.processHook_idem (hI : Installed m₀ s bs) (hh : h ∈ s.items)
    (action : FreezeAction) (eip : DWORD) :
    processHook action (processHook action eip h) h = processHook action eip h := by
  have hmade := hI.made h hh
  by_cases hchange : h.isEnabled = action.enable h
  · have hstay : ∀ eip, processHook action eip h = eip := fun eip => if_pos hchange
    rw [hstay, hstay]
  by_cases hen : action.enable h
  · obtain ⟨p, hp, -, hnew⟩ | ⟨-, hnew⟩ := hI.enter_cases hh hchange hen eip
    · rw [hnew, processHook, if_neg hchange, if_pos hen, hI.findNewIP_slot hh hp]
      exact if_neg (not_not.mpr rfl)
    · rw [hnew, hnew]
  · obtain ⟨p, hp, hold⟩ | hold := hI.leave_cases hh hchange hen eip
    · rw [hold, processHook, if_neg hchange, if_neg hen, hI.findOldIP_target hh hp]
      exact if_neg (not_not.mpr rfl)
    · rw [hold, hold]

/-- Where `Freeze` and `Unfreeze` leave a thread, for one hook. -/
theorem Installed.refrozen_one (hI : Installed m₀ s bs) {pre post : List HookEntry}
    (hitems : s.items = pre ++ h :: post) (env : HookEnv) (action : FreezeAction) (id : DWORD) :
    (s.refrozen env (some pre.length) action id).eip =
      if env.freeze.Movable id then processHook action (s.threads id).eip h
      else (s.threads id).eip := by
  have hh : h ∈ s.items := hitems ▸ List.mem_append_right _ (List.mem_cons_self ..)
  have hone : processThreadIPs s.items (some pre.length) action =
      fun eip => processHook action eip h := by
    funext eip
    rw [hitems]
    exact processThreadIPs_at action eip
  rw [refrozen_eip, hone]
  by_cases hid : id ∈ enumerateThreads env.freeze
  · obtain ⟨n, hn⟩ := Nat.exists_eq_succ_of_ne_zero
      (Nat.ne_of_gt (List.count_pos_iff.mpr hid))
    have hfixed : (fun eip => processHook action eip h)^[n]
        (processHook action (s.threads id).eip h) = processHook action (s.threads id).eip h :=
      Function.iterate_fixed (hI.processHook_idem hh action _) n
    rw [hn, Function.iterate_succ_apply, hfixed]
    simp [FreezeEnv.Movable, hid]
  · rw [List.count_eq_zero_of_not_mem hid, Function.iterate_zero_apply, ite_self,
      if_neg fun h => hid h.1]

/-- The other hooks are left when one is removed. -/
theorem removeHook_items {pre post : List HookEntry} (hI : Installed m₀ s bs)
    (hitems : s.items = pre ++ h :: post)
    (hentry : entryOf s.g_hooks h.pTarget = some (pre.length, h))
    (hcall : s.MH_RemoveHook env h.pTarget = some (s', .MH_OK)) : s'.items.Perm (pre ++ post) := by
  have hh : h ∈ s.items := hitems ▸ List.mem_append_right _ (List.mem_cons_self ..)
  unfold MinHook.MH_RemoveHook at hcall
  rw [if_pos (hI.heap_of_mem hh), hentry] at hcall
  dsimp only at hcall
  by_cases hen : h.isEnabled
  · rw [if_pos hen] at hcall
    obtain ⟨hI₁, hcases, -⟩ := hI.enableOne env hitems .ACTION_DISABLE false
    generalize s.enableOne env pre.length h .ACTION_DISABLE false = r at hI₁ hcases hcall
    obtain ⟨s₁, st₁⟩ := r
    obtain ⟨hst, hnew⟩ | ⟨hst, -⟩ := hcases
    · obtain rfl : st₁ = .MH_OK := hst
      obtain ⟨s₂, bs₂, hdrop, -, hperm, -⟩ := hI₁.dropEntry env hnew Bool.false_ne_true
      have hsame := hdrop.symm.trans hcall
      obtain ⟨rfl, -⟩ := Prod.mk.inj (Option.some.inj hsame)
      exact hperm
    · obtain rfl : st₁ = .MH_ERROR_MEMORY_PROTECT := hst
      obtain ⟨-, hfail⟩ := Prod.mk.inj (Option.some.inj hcall)
      cases hfail
  · rw [if_neg hen] at hcall
    obtain ⟨s₂, bs₂, hdrop, -, hperm, -⟩ := hI.dropEntry env hitems hen
    obtain ⟨rfl, -⟩ := Prod.mk.inj (Option.some.inj (hdrop.symm.trans hcall))
    exact hperm

/-- When a hook is removed, a thread that stands in its slot goes back to the function, which is as
it was, if the hook was enabled and the thread can be moved. If not, it stays, and the slot is given
back under it. -/
theorem mh_remove_thread (hr : (mhMachine m₀).RunWhere (mhOk m₀) tr s) (hh : h ∈ s.items)
    (hok : mhOk m₀ s (.MH_RemoveHook h.pTarget, env))
    (hcall : mhCall s env (.MH_RemoveHook h.pTarget) = some (s', .MH_OK)) {p : Nat × Nat}
    (hp : p ∈ h.ips) (heip : (s.threads id).eip = h.pTrampoline + BitVec.ofNat 32 p.2) :
    (s'.threads id).eip = (if h.isEnabled ∧ env.freeze.Movable id then
      h.pTarget + BitVec.ofNat 32 p.1 else h.pTrampoline + BitVec.ofNat 32 p.2) ∧
    (∀ g ∈ s'.items, g.pTrampoline ≠ h.pTrampoline) ∧
    ∀ x ∈ h.window, s'.buf.mem.bytes x = m₀.bytes x := by
  obtain ⟨bs, hI⟩ := installed_of_run hr
  obtain ⟨pre, post, hitems, hentry⟩ := hI.entry_self hh
  have hperm := removeHook_items hI hitems hentry hcall
  have hr' : (mhMachine m₀).RunWhere (mhOk m₀) (tr ++ [(.MH_RemoveHook h.pTarget, env)]) s' := by
    refine hr.step _ hok ?_
    rw [mhMachine_step, hcall, Option.map_some]
  refine ⟨?_, fun g hg => ?_, fun x hx => ?_⟩
  · have hthreads := removeHook_threads hcall
    rw [hentry] at hthreads
    dsimp only at hthreads
    by_cases hen : h.isEnabled
    · rw [if_pos ⟨hI.heap_of_mem hh, hen⟩] at hthreads
      rw [hthreads, hI.refrozen_one hitems env .ACTION_DISABLE id, heip]
      by_cases hmove : env.freeze.Movable id
      · have hchange : ¬ h.isEnabled = FreezeAction.ACTION_DISABLE.enable h := by
          rw [hen]
          exact Bool.noConfusion
        rw [if_pos hmove, if_pos ⟨hen, hmove⟩, processHook, if_neg hchange,
          if_neg (show ¬ FreezeAction.ACTION_DISABLE.enable h from Bool.false_ne_true),
          hI.findOldIP_boundary hh hp]
        exact if_pos ((hI.made h hh).target_ne_zero ((hI.made h hh).ips.1 p hp).1)
      · rw [if_neg hmove, if_neg fun hboth => hmove hboth.2]
    · rw [if_neg fun hboth => hen hboth.2] at hthreads
      rw [if_neg fun hboth => hen hboth.1, hthreads, heip]
  · have hslots := hI.slots.nodup
    rw [hitems, (List.perm_middle.map HookEntry.pTrampoline).nodup_iff, List.map_cons,
      List.nodup_cons] at hslots
    intro heq
    exact hslots.1 (heq ▸ List.mem_map_of_mem (hperm.mem_iff.mp hg))
  · have hcode := hI.code
    obtain ⟨bs', hI'⟩ := installed_of_run hr'
    refine hI'.code.rest x ((hcode.saved h hh).loaded x hx) fun g hg _ hx' => ?_
    rw [hitems] at hcode
    exact hcode.windows_apart (List.mem_append.mp (hperm.mem_iff.mp hg)) x hx' hx

/-- And back. -/
theorem mh_remove_thread_busy : ∃ s s' : MinHook, s.items = [hookedEntry] ∧
    mhCall s busy (.MH_RemoveHook 0x401000) = some (s', .MH_OK) ∧
    (s.threads 7).eip = 0x10FE2 ∧ (s'.threads 7).eip = 0x401002 := by
  obtain ⟨s, st, hcreate, hr⟩ := hookedCreate_run
  have hspec := hookedCreate_enabled
  rw [hcreate, Option.map_some] at hspec
  obtain ⟨hitems, hspec⟩ := Prod.mk.inj (Option.some.inj hspec)
  obtain ⟨heip, hst⟩ := Prod.mk.inj hspec
  have hok : mhOk hookedApp s (.EnableHook 0x401000 true, busy) := busy_ok nofun
  have hr' := hr.step _ hok rfl
  dsimp only at hitems heip hst
  generalize (s.MH_EnableHook busy 0x401000).1 = s₁ at hitems heip hst hr'
  obtain ⟨⟨s', st'⟩, hremove, rfl⟩ := Option.map_eq_some_iff.mp hst
  have hmem : hookedEntry ∈ s₁.items := hitems ▸ List.mem_singleton_self _
  have hmoved := (mh_remove_thread hr' hmem (busy_ok nofun) hremove (p := (2, 2)) (by decide)
    heip).1
  exact ⟨s₁, s', hitems, hremove, heip, hmoved⟩

end Going

end Bossran
