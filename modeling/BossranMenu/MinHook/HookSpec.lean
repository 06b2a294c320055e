import BossranMenu.MinHook.Table

/-!
# What the calls are for (`MinHook.h`)

The hooks seen from outside are a map from targets to detours and flags, if the library is
initialized. `HookSpec` says what a call may do to it, with which status and for which reason.
Where the system refuses nothing this leaves no choice: it is `hookAnswer` (`HookSpec.answer`).

`MinHook.view` is the map that a state stands for. The lemmas about `viewOf` are what the operations
on the table do to the map.
-/

namespace Bossran

open Memory

inductive MhCall where
  | MH_Initialize
  | MH_Uninitialize
  | MH_CreateHook (pTarget pDetour : DWORD)
  | MH_RemoveHook (pTarget : DWORD)
  /-- `MH_EnableHook`, `MH_DisableHook` -/
  | EnableHook (pTarget : DWORD) (enable : Bool)
  /-- `MH_QueueEnableHook`, `MH_QueueDisableHook` -/
  | QueueHook (pTarget : DWORD) (queueEnable : Bool)
  | MH_ApplyQueued
  deriving DecidableEq

def mhCall (s : MinHook) (env : HookEnv) : MhCall → Option (MinHook × MH_STATUS)
  | .MH_Initialize => some ( s.MH_Initialize env)
  | MhCall.MH_Uninitialize => s.MH_Uninitialize env
  | .MH_CreateHook pTarget pDetour => s.MH_CreateHook env pTarget pDetour
  | .MH_RemoveHook pTarget => s.MH_RemoveHook env pTarget
  | .EnableHook pTarget true => some (s.MH_EnableHook env pTarget)
  | .EnableHook pTarget false => some (s.MH_DisableHook env pTarget)
  | .QueueHook pTarget true => some (s.MH_QueueEnableHook pTarget)
  | .QueueHook pTarget false => some (s.MH_QueueDisableHook pTarget)
  | .MH_ApplyQueued => some (s.MH_ApplyQueued env)

theorem mhCall_enableHook {s : MinHook} {env : HookEnv} {pTarget : DWORD} {enable : Bool} :
    mhCall s env (.EnableHook pTarget enable) = some (s.enableHook env pTarget enable) := by
  cases enable <;> rfl

/-! ## The specification -/

structure HookView where
  pDetour : DWORD
  isEnabled : Bool
  queueEnable : Bool
  deriving DecidableEq

abbrev HookMap := DWORD → Option HookView

namespace HookView

/-- Enabled or disabled, with nothing queued. -/
def set (v : HookView) (enable : Bool) : HookView := ⟨v.pDetour, enable, enable⟩

/-- A hook that is as it should be keeps what is queued. -/
def switch (enable : Bool) (v : HookView) : HookView :=
  if v.isEnabled = enable then v else v.set enable

/-- What is queued is done. -/
def apply (v : HookView) : HookView := v.set v.queueEnable

end HookView

/-- Some hooks have been changed by `f`. One that is not as `want` says has not. -/
structure Partly (want : HookView → Bool) (f : HookView → HookView) (hooks hooks' : HookMap) :
    Prop where
  some_changed : ∀ t, hooks' t = hooks t ∨ hooks' t = (hooks t).map f
  one_left : ∃ t v, hooks t = some v ∧ hooks' t = some v ∧ v.isEnabled ≠ want v

/-- `VirtualProtect` fails for some hook. -/
def HookEnv.ProtectFails (env : HookEnv) : Prop := ∃ pos, env.virtualProtect pos = false

/-- What a call may do, and what it returns. A call fails only for a reason: `env` is what the system
answers, `executable` says which addresses can be executed, and for a target that is `unsupported`
no trampoline can be made. -/
inductive HookSpec (env : HookEnv) (executable : DWORD → Bool) (unsupported : DWORD → Prop) :
    Option HookMap → MhCall → Option HookMap → MH_STATUS → Prop
  | initialized : HookSpec env executable unsupported none .MH_Initialize (some fun _ => none) .MH_OK
  | noHeap : env.heapCreate = false →
    HookSpec env executable unsupported none .MH_Initialize none .MH_ERROR_MEMORY_ALLOC
  | alreadyInitialized {hooks : HookMap} : HookSpec env executable unsupported (some hooks)
    .MH_Initialize (some hooks) .MH_ERROR_ALREADY_INITIALIZED
  | notInitialized {c : MhCall} : c ≠ .MH_Initialize →
    HookSpec env executable unsupported none c none .MH_ERROR_NOT_INITIALIZED
  | uninitialized {hooks : HookMap} :
    HookSpec env executable unsupported (some hooks) MhCall.MH_Uninitialize none .MH_OK
  | uninitializeFails {hooks hooks' : HookMap} : env.ProtectFails →
    Partly (fun _ => false) (HookView.switch false) hooks hooks' →
    HookSpec env executable unsupported (some hooks) MhCall.MH_Uninitialize (some hooks')
      .MH_ERROR_MEMORY_PROTECT
  | created {hooks : HookMap} {t d : DWORD} : executable t && executable d → hooks t = none →
    HookSpec env executable unsupported (some hooks) (.MH_CreateHook t d)
      (some (Function.update hooks t (some ⟨d, false, false⟩))) .MH_OK
  | alreadyCreated {hooks : HookMap} {t d : DWORD} {v : HookView} : executable t && executable d →
    hooks t = some v → HookSpec env executable unsupported (some hooks) (.MH_CreateHook t d)
      (some hooks) .MH_ERROR_ALREADY_CREATED
  | notExecutable {hooks : HookMap} {t d : DWORD} : ¬ (executable t && executable d) →
    HookSpec env executable unsupported (some hooks) (.MH_CreateHook t d) (some hooks)
      .MH_ERROR_NOT_EXECUTABLE
  | unsupported {hooks : HookMap} {t d : DWORD} : executable t && executable d → hooks t = none →
    unsupported t → HookSpec env executable unsupported (some hooks) (.MH_CreateHook t d)
      (some hooks) .MH_ERROR_UNSUPPORTED_FUNCTION
  | noMemory {hooks : HookMap} {t d : DWORD} : executable t && executable d → hooks t = none →
    env.virtualAlloc = none ∨ env.heapAlloc = false →
    HookSpec env executable unsupported (some hooks) (.MH_CreateHook t d) (some hooks)
      .MH_ERROR_MEMORY_ALLOC
  | removed {hooks : HookMap} {t : DWORD} {v : HookView} : hooks t = some v →
    HookSpec env executable unsupported (some hooks) (.MH_RemoveHook t)
      (some (Function.update hooks t none)) .MH_OK
  | removeFails {hooks : HookMap} {t : DWORD} {v : HookView} : env.ProtectFails →
    hooks t = some v → v.isEnabled → HookSpec env executable unsupported (some hooks)
      (.MH_RemoveHook t) (some hooks) .MH_ERROR_MEMORY_PROTECT
  | removeNotCreated {hooks : HookMap} {t : DWORD} : hooks t = none →
    HookSpec env executable unsupported (some hooks) (.MH_RemoveHook t) (some hooks)
      .MH_ERROR_NOT_CREATED
  | enabled {hooks : HookMap} {t : DWORD} {v : HookView} {e : Bool} : t ≠ MH_ALL_HOOKS →
    hooks t = some v → v.isEnabled ≠ e →
    HookSpec env executable unsupported (some hooks) (.EnableHook t e)
      (some (Function.update hooks t (some (v.set e)))) .MH_OK
  | enableFails {hooks : HookMap} {t : DWORD} {v : HookView} {e : Bool} : env.ProtectFails →
    t ≠ MH_ALL_HOOKS → hooks t = some v → v.isEnabled ≠ e →
    HookSpec env executable unsupported (some hooks) (.EnableHook t e) (some hooks)
      .MH_ERROR_MEMORY_PROTECT
  | alreadyEnabled {hooks : HookMap} {t : DWORD} {v : HookView} {e : Bool} : t ≠ MH_ALL_HOOKS →
    hooks t = some v → v.isEnabled = e →
    HookSpec env executable unsupported (some hooks) (.EnableHook t e) (some hooks)
      (if e then .MH_ERROR_ENABLED else .MH_ERROR_DISABLED)
  | enableNotCreated {hooks : HookMap} {t : DWORD} {e : Bool} : t ≠ MH_ALL_HOOKS →
    hooks t = none → HookSpec env executable unsupported (some hooks) (.EnableHook t e) (some hooks)
      .MH_ERROR_NOT_CREATED
  | enabledAll {hooks : HookMap} {e : Bool} :
    HookSpec env executable unsupported (some hooks) (.EnableHook MH_ALL_HOOKS e)
      (some fun t => (hooks t).map (HookView.switch e)) .MH_OK
  | enableAllFails {hooks hooks' : HookMap} {e : Bool} : env.ProtectFails →
    Partly (fun _ => e) (HookView.switch e) hooks hooks' →
    HookSpec env executable unsupported (some hooks) (.EnableHook MH_ALL_HOOKS e) (some hooks')
      .MH_ERROR_MEMORY_PROTECT
  | queued {hooks : HookMap} {t : DWORD} {v : HookView} {q : Bool} : t ≠ MH_ALL_HOOKS →
    hooks t = some v → HookSpec env executable unsupported (some hooks) (.QueueHook t q)
      (some (Function.update hooks t (some { v with queueEnable := q }))) .MH_OK
  | queueNotCreated {hooks : HookMap} {t : DWORD} {q : Bool} : t ≠ MH_ALL_HOOKS →
    hooks t = none → HookSpec env executable unsupported (some hooks) (.QueueHook t q) (some hooks)
      .MH_ERROR_NOT_CREATED
  | queuedAll {hooks : HookMap} {q : Bool} :
    HookSpec env executable unsupported (some hooks) (.QueueHook MH_ALL_HOOKS q)
      (some fun t => (hooks t).map ({ · with queueEnable := q })) .MH_OK
  | applied {hooks : HookMap} : HookSpec env executable unsupported (some hooks) .MH_ApplyQueued
    (some fun t => (hooks t).map HookView.apply) .MH_OK
  | applyFails {hooks hooks' : HookMap} : env.ProtectFails →
    Partly HookView.queueEnable HookView.apply hooks hooks' →
    HookSpec env executable unsupported (some hooks) .MH_ApplyQueued (some hooks')
      .MH_ERROR_MEMORY_PROTECT

/-! ## When nothing is refused -/

/-- The system refuses nothing. -/
structure HookEnv.Grants (env : HookEnv) : Prop where
  heapCreate : env.heapCreate
  virtualAlloc : env.virtualAlloc ≠ none
  heapAlloc : env.heapAlloc
  virtualProtect : ∀ pos, env.virtualProtect pos

/-- What a call does then, for a target of which a trampoline can be made. -/
def hookAnswer (executable : DWORD → Bool) :
    Option HookMap → MhCall → Option HookMap × MH_STATUS
  | none, .MH_Initialize => (some fun _ => none, .MH_OK)
  | none, _ => (none, .MH_ERROR_NOT_INITIALIZED)
  | some hooks, .MH_Initialize => (some hooks, .MH_ERROR_ALREADY_INITIALIZED)
  | some _, MhCall.MH_Uninitialize => (none, .MH_OK)
  | some hooks, .MH_CreateHook t d =>
    if executable t && executable d then
      match hooks t with
      | none => (some (Function.update hooks t (some ⟨d, false, false⟩)), .MH_OK)
      | some _ => (some hooks, .MH_ERROR_ALREADY_CREATED)
    else (some hooks, .MH_ERROR_NOT_EXECUTABLE)
  | some hooks, .MH_RemoveHook t =>
    match hooks t with
    | none => (some hooks, .MH_ERROR_NOT_CREATED)
    | some _ => (some (Function.update hooks t none), .MH_OK)
  | some hooks, .EnableHook t e =>
    if t = MH_ALL_HOOKS then (some fun t => (hooks t).map (HookView.switch e), .MH_OK)
    else
      match hooks t with
      | none => (some hooks, .MH_ERROR_NOT_CREATED)
      | some v =>
        if v.isEnabled = e then (some hooks, if e then .MH_ERROR_ENABLED else .MH_ERROR_DISABLED)
        else (some (Function.update hooks t (some (v.set e))), .MH_OK)
  | some hooks, .QueueHook t q =>
    if t = MH_ALL_HOOKS then (some fun t => (hooks t).map ({ · with queueEnable := q }), .MH_OK)
    else
      match hooks t with
      | none => (some hooks, .MH_ERROR_NOT_CREATED)
      | some v => (some (Function.update hooks t (some { v with queueEnable := q })), .MH_OK)
  | some hooks, .MH_ApplyQueued => (some fun t => (hooks t).map HookView.apply, .MH_OK)

section Grants

variable {env : HookEnv} {executable : DWORD → Bool} {unsupported : DWORD → Prop}
  {hooks hooks' : Option HookMap} {c : MhCall} {st : MH_STATUS}

theorem HookEnv.Grants.protects (h : env.Grants) : ¬ env.ProtectFails := by
  rintro ⟨pos, hfalse⟩
  have htrue := h.virtualProtect pos
  rw [hfalse] at htrue
  cases htrue

/-- The specification leaves no choice where nothing is refused. -/
theorem HookSpec.answer (h : HookSpec env executable unsupported hooks c hooks' st)
    (hg : env.Grants) (hs : ∀ t d, c = .MH_CreateHook t d → ¬ unsupported t) :
    (hooks', st) = hookAnswer executable hooks c := by
  have hp := hg.protects
  cases h with
  | initialized => rfl
  | noHeap hheap => exact absurd hg.heapCreate (by rw [hheap]; exact Bool.false_ne_true)
  | alreadyInitialized => rfl
  | notInitialized hc =>
    cases c with
    | MH_Initialize => exact absurd rfl hc
    | _ => rfl
  | uninitialized => rfl
  | uninitializeFails hfail => exact absurd hfail hp
  | created he hnone => simp only [hookAnswer, if_pos he, hnone]
  | alreadyCreated he hsome => simp only [hookAnswer, if_pos he, hsome]
  | notExecutable he => simp only [hookAnswer, if_neg he]
  | unsupported _ _ hun => exact absurd hun (hs _ _ rfl)
  | noMemory _ _ hmem =>
    obtain hnone | hfalse := hmem
    · exact absurd hnone hg.virtualAlloc
    · exact absurd hg.heapAlloc (by rw [hfalse]; exact Bool.false_ne_true)
  | removed hsome => simp only [hookAnswer, hsome]
  | removeFails hfail => exact absurd hfail hp
  | removeNotCreated hnone => simp only [hookAnswer, hnone]
  | enabled hall hsome hne => simp only [hookAnswer, if_neg hall, hsome, if_neg hne]
  | enableFails hfail => exact absurd hfail hp
  | alreadyEnabled hall hsome heq => simp only [hookAnswer, if_neg hall, hsome, if_pos heq]
  | enableNotCreated hall hnone => simp only [hookAnswer, if_neg hall, hnone]
  | enabledAll => simp only [hookAnswer, if_pos]
  | enableAllFails hfail => exact absurd hfail hp
  | queued hall hsome => simp only [hookAnswer, if_neg hall, hsome]
  | queueNotCreated hall hnone => simp only [hookAnswer, if_neg hall, hnone]
  | queuedAll => simp only [hookAnswer, if_pos]
  | applied => rfl
  | applyFails hfail => exact absurd hfail hp

end Grants

/-! ## What the table shows -/

def HookEntry.view (h : HookEntry) : HookView := ⟨h.pDetour, h.isEnabled, h.queueEnable⟩

def viewOf (items : List HookEntry) : HookMap := fun t =>
  (items.find? fun h => h.pTarget = t).map HookEntry.view

def MinHook.view (s : MinHook) : Option HookMap := if s.g_hHeap then some (viewOf s.items) else none

section View

variable {items items' pre post : List HookEntry} {h h' : HookEntry} {t : DWORD} {v : HookView}

theorem viewOf_cons (h : HookEntry) (items : List HookEntry) :
    viewOf (h :: items) = Function.update (viewOf items) h.pTarget (some h.view) := by
  funext t
  rw [Function.update_apply, viewOf, List.find?_cons]
  by_cases heq : h.pTarget = t
  · rw [if_pos heq.symm]
    simp [heq]
  · rw [if_neg (Ne.symm heq)]
    simp [heq, viewOf]

theorem viewOf_eq_none : viewOf items t = none ↔ ∀ h ∈ items, h.pTarget ≠ t := by
  simp [viewOf]

/-- The order of the entries does not matter. -/
theorem viewOf_perm (hp : items.Perm items') (hnd : (items.map HookEntry.pTarget).Nodup) :
    viewOf items = viewOf items' := by
  induction hp with
  | nil => rfl
  | cons h _ ih => rw [viewOf_cons, viewOf_cons, ih (List.nodup_cons.mp hnd).2]
  | swap g h items =>
    have hne : g.pTarget ≠ h.pTarget := by
      intro heq
      rw [List.map_cons, List.map_cons, List.nodup_cons] at hnd
      exact hnd.1 (heq ▸ List.mem_cons_self ..)
    simp only [viewOf_cons]
    exact Function.update_comm hne ..
  | trans hp _ ih ih' => rw [ih hnd, ih' ((hp.map _).nodup_iff.mp hnd)]

theorem viewOf_split (hnd : ((pre ++ h :: post).map HookEntry.pTarget).Nodup) :
    viewOf (pre ++ h :: post) =
      Function.update (viewOf (pre ++ post)) h.pTarget (some h.view) := by
  rw [viewOf_perm List.perm_middle hnd, viewOf_cons]

/-- The entry of the target `t`. -/
theorem viewOf_self (hnd : ((pre ++ h :: post).map HookEntry.pTarget).Nodup)
    (ht : h.pTarget = t) : viewOf (pre ++ h :: post) t = some h.view := by
  rw [viewOf_split hnd, ← ht, Function.update_self]

/-- It is replaced. -/
theorem viewOf_replace (h' : HookEntry) (hnd : ((pre ++ h :: post).map HookEntry.pTarget).Nodup)
    (ht : h.pTarget = t) (ht' : h'.pTarget = t) : viewOf (pre ++ h' :: post) =
      Function.update (viewOf (pre ++ h :: post)) t (some h'.view) := by
  have hnd' : ((pre ++ h' :: post).map HookEntry.pTarget).Nodup := by
    rw [List.map_append, List.map_cons, ht', ← ht]
    rwa [List.map_append, List.map_cons] at hnd
  rw [viewOf_split hnd, viewOf_split hnd', ht, ht', Function.update_idem]

/-- It is removed. -/
theorem viewOf_remove (hnd : ((pre ++ h :: post).map HookEntry.pTarget).Nodup)
    (ht : h.pTarget = t) (hp : items.Perm (pre ++ post)) :
    viewOf items = Function.update (viewOf (pre ++ h :: post)) t none := by
  have hnd' := (List.perm_middle.map HookEntry.pTarget).nodup_iff.mp hnd
  rw [List.map_cons, List.nodup_cons] at hnd'
  have hnone : viewOf (pre ++ post) t = none := by
    refine viewOf_eq_none.mpr fun g hg heq => hnd'.1 ?_
    rw [ht, ← heq]
    exact List.mem_map_of_mem hg
  rw [viewOf_perm hp ((hp.map _).nodup_iff.mpr hnd'.2), viewOf_split hnd, ht, Function.update_idem,
    ← hnone, Function.update_eq_self]

/-- A new entry. -/
theorem viewOf_append (hnd : ((items ++ [h]).map HookEntry.pTarget).Nodup) :
    viewOf (items ++ [h]) = Function.update (viewOf items) h.pTarget (some h.view) := by
  rw [viewOf_perm (List.perm_append_singleton h items) hnd, viewOf_cons]

/-- Every entry changes, and the map with it. -/
theorem viewOf_map {f : HookEntry → HookEntry} {g : HookView → HookView}
    (htarget : ∀ h, (f h).pTarget = h.pTarget) (hview : ∀ h, (f h).view = g h.view) :
    viewOf (items.map f) = fun t => (viewOf items t).map g := by
  funext t
  induction items with
  | nil => rfl
  | cons h items ih =>
    rw [List.map_cons, viewOf_cons, viewOf_cons, Function.update_apply, Function.update_apply,
      htarget]
    split
    · rw [hview]
      rfl
    · exact ih

/-- The first entries change. -/
theorem viewOf_prefix {f : HookEntry → HookEntry} {g : HookView → HookView}
    (htarget : ∀ h, (f h).pTarget = h.pTarget) (hview : ∀ h, (f h).view = g h.view) (k : Nat)
    (t : DWORD) : viewOf ((items.take k).map f ++ items.drop k) t = viewOf items t ∨
      viewOf ((items.take k).map f ++ items.drop k) t = (viewOf items t).map g := by
  induction items generalizing k with
  | nil => exact .inl (by simp)
  | cons h items ih =>
    cases k with
    | zero => exact .inl rfl
    | succ k =>
      rw [List.take_succ_cons, List.drop_succ_cons, List.map_cons, List.cons_append, viewOf_cons,
        viewOf_cons, Function.update_apply, Function.update_apply, htarget]
      split
      · rw [hview]
        exact .inr rfl
      · exact ih k

theorem HookEntry.switch_pTarget (want : HookEntry → Bool) (h : HookEntry) :
    (h.switch want).pTarget = h.pTarget := by
  unfold HookEntry.switch
  split <;> rfl

theorem switch_view (e : Bool) (h : HookEntry) :
    (h.switch fun _ => e).view = HookView.switch e h.view := by
  unfold HookEntry.switch HookView.switch
  by_cases he : h.isEnabled = e
  · rw [if_pos he, if_pos (show h.view.isEnabled = e from he)]
  · rw [if_neg he, if_neg (show ¬ h.view.isEnabled = e from he)]
    rfl

theorem apply_view (h : HookEntry) : (h.switch HookEntry.queueEnable).view = h.view.apply := by
  unfold HookEntry.switch
  split
  · rename_i heq
    rw [HookEntry.view, HookView.apply, HookView.set]
    exact congrArg (HookView.mk h.pDetour · h.queueEnable) heq
  · rfl

end View

end Bossran
