import BossranMenu.MinHook.Hooked
import BossranMenu.Lib.SpinLock

/-!
# Calls from several threads (`EnterSpinLock`, `LeaveSpinLock`)

Every call of the library begins with `EnterSpinLock` and ends with `LeaveSpinLock`, and touches
what the calls share only between them. `SpinLock.Act.tryEnter` is a round of the loop in
`EnterSpinLock`; the flag `g_isLocked` is `SpinLock.State.locked`.

* `atOnce`, `inRounds`: a call as one step, and with a step for each round of the loop over the
  hooks.
* `mh_serial`: in any order of the steps of any number of threads, the calls that have returned are
  a run of `mhMachine`, so that what holds in every run holds whenever no call is executed.
-/

namespace Bossran

open Memory SpinLock

/-- Executing the calls in steps comes to what `mhCall` says. -/
def Executes (b : SpinLock.Body MinHook (MhCall × HookEnv) MH_STATUS) : Prop :=
  ∀ s a s' st, b.Ends s a s' st → mhCall s a.2 a.1 = some (s', st)

section Serial

variable {m₀ : AddressSpace} {ok : MinHook → MhCall × HookEnv → Prop} {τ : Type} [DecidableEq τ]
  {b : SpinLock.Body MinHook (MhCall × HookEnv) MH_STATUS} {s₀ s : MinHook}
  {tr : List (SpinLock.Act τ (MhCall × HookEnv) MH_STATUS)} {S : SpinLock.State τ b}
  {log : List (τ × (MhCall × HookEnv) × MH_STATUS)}

omit [DecidableEq τ] in
/-- Calls that are executed one after the other are a run. -/
theorem run_of_serial (hb : Executes b) (h₀ : (mhMachine m₀).init s₀) (h : b.Serial ok s₀ log s) :
    (mhMachine m₀).RunWhere ok (log.map fun e => e.2.1) s := by
  induction h with
  | nil => exact .init h₀
  | @snoc log s s' t a r _ hok hends ih =>
    obtain ⟨c, env⟩ := a
    rw [List.map_append]
    refine ih.step (c, env) hok ?_
    rw [mhMachine_step, hb s (c, env) s' r hends, Option.map_some]

/-- In any order of the steps of the threads: at most one thread is inside, the calls that have
returned are a run with the results that they have in it, and while the lock is free the state is
that after this run. `ok` is whatever the callers keep to, such as `mhOk m₀`. -/
theorem mh_serial (hb : Executes b) (h₀ : (mhMachine m₀).init s₀)
    (hr : (SpinLock.machine τ b s₀).RunWhere (enterOk ok) tr S) :
    ∃ log : List (τ × (MhCall × HookEnv) × MH_STATUS),
      log.map (fun e => (e.1, e.2.2)) = returns tr ∧
      (∀ t, callsOf t tr = madeBy t log ++ (S.phase t).pending) ∧
      (∀ pre e post, log = pre ++ e :: post → ∃ s s',
        (mhMachine m₀).RunWhere ok (pre.map fun e => e.2.1) s ∧
          mhCall s e.2.1.2 e.2.1.1 = some (s', e.2.2)) ∧
      (S.locked = false →
        (mhMachine m₀).RunWhere ok (log.map fun e => e.2.1) S.shared) ∧
      ∀ t u, (S.phase t).busy → (S.phase u).busy → t = u := by
  obtain ⟨log, hI⟩ := serial_of_run hr
  refine ⟨log, hI.returned, hI.called, fun pre e post hlog => ?_, fun hfree => ?_,
    fun t u => hI.exclusive⟩
  · obtain ⟨s, hserial⟩ := hI.serial
    obtain ⟨s₁, s₂, hpre, -, hends⟩ := hserial.middle hlog
    exact ⟨s₁, s₂, run_of_serial hb h₀ hpre, hb _ _ _ _ hends⟩
  · exact run_of_serial hb h₀ (hI.free hfree).1

end Serial

/-! ## In one step -/

/-- The whole call in one step. -/
def atOnce : SpinLock.Body MinHook (MhCall × HookEnv) MH_STATUS where
  Local := MhCall × HookEnv
  start := id
  step s a := match mhCall s a.2 a.1 with
    | some (s', st) => (s', .inr st)
    | none => (s, .inl a)

theorem atOnce_does : atOnce.Does fun s a => mhCall s a.2 a.1 where
  next h := by
    unfold atOnce at h
    grind
  last h := by
    unfold atOnce at h
    grind

theorem executes_atOnce : Executes atOnce := fun _ _ _ _ h => atOnce_does.ends h

/-! ## In rounds -/

/-- Where a call is that goes over all hooks. -/
inductive CallRound where
  | start (c : MhCall) (env : HookEnv)
  /-- The other threads are frozen. The entries in front of `pos` are as `want` says. -/
  | entry (env : HookEnv) (want : HookEntry → Bool) (pos : Nat)
  /-- The code is written. -/
  | thaw (env : HookEnv) (st : MH_STATUS)

/-- What a call wants of all hooks, and how the threads are moved for it. -/
def MhCall.overAll : MhCall → Option ((HookEntry → Bool) × FreezeAction)
  | .EnableHook pTarget enable =>
    if pTarget = MH_ALL_HOOKS then
      some (fun _ => enable, if enable then .ACTION_ENABLE else .ACTION_DISABLE)
    else none
  | .MH_ApplyQueued => some (HookEntry.queueEnable, .ACTION_APPLY_QUEUED)
  | .MH_Initialize | MhCall.MH_Uninitialize | .MH_CreateHook _ _ | .MH_RemoveHook _
  | .QueueHook _ _ => none

/-- A call that is one step. -/
def CallRound.whole (s : MinHook) (c : MhCall) (env : HookEnv) : MinHook × (CallRound ⊕ MH_STATUS) :=
  match mhCall s env c with
  | some (s', st) => (s', .inr st)
  | none => (s, .inl (.start c env))

/-- `Freeze`, each round of the loop over the hooks and `Unfreeze` are steps. The calls that do not
go over all hooks are one step, and so are those that find nothing to do. -/
def inRounds : SpinLock.Body MinHook (MhCall × HookEnv) MH_STATUS where
  Local := CallRound
  start a := .start a.1 a.2
  step s
    | .start c env =>
      match c.overAll with
      | some (want, action) =>
        if s.g_hHeap ∧ ¬ s.items.all fun h => h.isEnabled = want h then
          (s.freeze env none action, .inl (.entry env want 0))
        else CallRound.whole s c env
      | none => CallRound.whole s c env
    | .entry env want pos =>
      match s.items[pos]? with
      | none => (s, .inl (.thaw env .MH_OK))
      | some h =>
        if h.isEnabled = want h then (s, .inl (.entry env want (pos + 1)))
        else match enableHookLL (env.virtualProtect pos) s.buf.mem h (want h) with
          | (m, h, .MH_OK) => (s.setPatched m (s.items.set pos h), .inl (.entry env want (pos + 1)))
          | (m, h, st) => (s.setPatched m (s.items.set pos h), .inl (.thaw env st))
    | .thaw env st => (s.unfreeze env, .inr st)

/-- What is left of a call. -/
def CallRound.rest (s : MinHook) : CallRound → Option (MinHook × MH_STATUS)
  | .start c env => mhCall s env c
  | .entry env want pos =>
    let (m, items, st) := enableRest env.virtualProtect want pos s.buf.mem (s.items.drop pos)
    some ((s.setPatched m (s.items.take pos ++ items)).unfreeze env, st)
  | .thaw env st => some (s.unfreeze env, st)

section Rounds

variable {s : MinHook} {c : MhCall} {env : HookEnv} {want : HookEntry → Bool}
  {action : FreezeAction} {pos : Nat} {h : HookEntry}

theorem mhCall_overAll (hall : c.overAll = some (want, action)) (hheap : s.g_hHeap) :
    mhCall s env c = some (s.enableHooks env want action) := by
  cases c with
  | EnableHook pTarget enable =>
    by_cases ht : pTarget = MH_ALL_HOOKS
    · rw [MhCall.overAll, if_pos ht] at hall
      obtain ⟨hwant, haction⟩ := Prod.mk.inj (Option.some.inj hall)
      rw [mhCall_enableHook, MinHook.enableHook, if_pos hheap, if_pos ht,
        MinHook.enableAllHooksLL, hwant, haction]
    · rw [MhCall.overAll, if_neg ht] at hall
      cases hall
  | MH_ApplyQueued =>
    obtain ⟨hwant, haction⟩ := Prod.mk.inj (Option.some.inj hall)
    rw [← hwant, ← haction]
    exact congrArg some (if_pos hheap)
  | _ => cases hall

theorem set_set (t : HookTable) (l l' : List HookEntry) : (t.set l).set l' = t.set l' := by
  obtain ⟨pItems, capacity⟩ := t
  cases pItems <;> rfl

theorem setPatched_self (s : MinHook) : s.setPatched s.buf.mem s.items = s := by
  obtain ⟨buf, heap, ⟨pItems, capacity⟩, threads⟩ := s
  cases pItems <;> rfl

theorem setPatched_setPatched (s : MinHook) (m m' : AddressSpace) (l l' : List HookEntry) :
    (s.setPatched m l).setPatched m' l' = s.setPatched m' l' := by
  unfold MinHook.setPatched
  rw [set_set]

theorem setPatched_set (m : AddressSpace) (h' : HookEntry) :
    (s.setPatched m (s.items.set pos h')).items = s.items.set pos h' :=
  items_set_of_length List.length_set

/-- Behind the last entry nothing is left to be written. -/
theorem rest_entry_end (hnone : s.items[pos]? = none) :
    (CallRound.entry env want pos).rest s = (CallRound.thaw env .MH_OK).rest s := by
  have hlen := List.getElem?_eq_none_iff.mp hnone
  rw [CallRound.rest, List.drop_eq_nil_of_le hlen, List.take_of_length_le hlen]
  simp only [enableRest, List.append_nil, setPatched_self]
  rfl

/-- The entry is as it should be. -/
theorem rest_entry_skip (hget : s.items[pos]? = some h) (hsame : h.isEnabled = want h) :
    (CallRound.entry env want pos).rest s = (CallRound.entry env want (pos + 1)).rest s := by
  obtain ⟨hlt, rfl⟩ := List.getElem?_eq_some_iff.mp hget
  rw [CallRound.rest, CallRound.rest, List.drop_eq_getElem_cons hlt, enableRest, if_pos hsame,
    List.take_succ_eq_append_getElem hlt]
  simp only [List.append_assoc, List.singleton_append]

/-- The entry is switched, or it is the last. -/
theorem rest_entry_switch {m : AddressSpace} {h' : HookEntry} {st : MH_STATUS}
    (hget : s.items[pos]? = some h) (hdiff : h.isEnabled ≠ want h)
    (hone : enableHookLL (env.virtualProtect pos) s.buf.mem h (want h) = (m, h', st)) :
    (CallRound.entry env want pos).rest s =
      (if st = .MH_OK then CallRound.entry env want (pos + 1) else CallRound.thaw env st).rest
        (s.setPatched m (s.items.set pos h')) := by
  have hitems : (s.setPatched m (s.items.set pos h')).items = s.items.set pos h' :=
    setPatched_set m h'
  obtain ⟨pre, post, hsplit, rfl⟩ := split_at hget
  have hset : s.items.set pre.length h' = pre ++ h' :: post := by
    rw [hsplit, List.set_append_right _ _ (Nat.le_refl _), Nat.sub_self, List.set_cons_zero]
  rw [hset] at hitems ⊢
  rw [CallRound.rest, hsplit, List.drop_left, List.take_left, enableRest, if_neg hdiff, hone]
  by_cases hst : st = .MH_OK
  · subst hst
    rw [if_pos rfl, CallRound.rest, hitems, List.append_cons, List.take_left' (by simp),
      List.drop_left' (by simp)]
    simp only [setPatched_setPatched, List.append_assoc, List.singleton_append]
    rfl
  · rw [if_neg hst, CallRound.rest]
    cases st with
    | MH_OK => exact absurd rfl hst
    | _ => rfl

/-- How many steps are left of a call that ends, at most. -/
def CallRound.left (s : MinHook) : CallRound → Nat
  | .start _ _ => s.items.length + 3
  | .entry _ _ pos => s.items.length - pos + 2
  | .thaw _ _ => 1

/-- Everything that a step can do. -/
theorem inRounds_cases {s' : MinHook} {l : CallRound} {out : CallRound ⊕ MH_STATUS}
    (hs : inRounds.step s l = (s', out)) :
    (∃ c env want action, l = .start c env ∧ c.overAll = some (want, action) ∧ s.g_hHeap ∧
      (¬ s.items.all fun h => h.isEnabled = want h) ∧ s' = s.freeze env none action ∧
      out = .inl (.entry env want 0)) ∨
    (∃ c env st, l = .start c env ∧ mhCall s env c = some (s', st) ∧ out = .inr st) ∨
    (∃ c env, l = .start c env ∧ mhCall s env c = none ∧ s' = s ∧ out = .inl l) ∨
    (∃ env want pos, l = .entry env want pos ∧ s.items[pos]? = none ∧ s' = s ∧
      out = .inl (.thaw env .MH_OK)) ∨
    (∃ env want pos h, l = .entry env want pos ∧ s.items[pos]? = some h ∧ h.isEnabled = want h ∧
      s' = s ∧ out = .inl (.entry env want (pos + 1))) ∨
    (∃ env want pos h m h' st, l = .entry env want pos ∧ s.items[pos]? = some h ∧
      h.isEnabled ≠ want h ∧
      enableHookLL (env.virtualProtect pos) s.buf.mem h (want h) = (m, h', st) ∧
      s' = s.setPatched m (s.items.set pos h') ∧
      out = .inl (if st = .MH_OK then .entry env want (pos + 1) else .thaw env st)) ∨
    ∃ env st, l = .thaw env st ∧ s' = s.unfreeze env ∧ out = .inr st := by
  unfold inRounds CallRound.whole at hs
  grind

/-- The loop begins. -/
theorem rest_start (hall : c.overAll = some (want, action)) (hheap : s.g_hHeap)
    (hsome : ¬ s.items.all fun h => h.isEnabled = want h) :
    (CallRound.start c env).rest s =
      (CallRound.entry env want 0).rest (s.freeze env none action) := by
  rw [CallRound.rest, mhCall_overAll hall hheap, MinHook.enableHooks, if_neg hsome]
  rfl

theorem inRounds_does : inRounds.Does fun s l => l.rest s where
  next hs := by
    obtain ⟨c, env, want, action, rfl, hall, hheap, hsome, rfl, hout⟩ | ⟨c, env, st, -, -, hout⟩ |
      ⟨c, env, rfl, hnone, rfl, hout⟩ | ⟨env, want, pos, rfl, hnone, rfl, hout⟩ |
      ⟨env, want, pos, h, rfl, hget, hsame, rfl, hout⟩ |
      ⟨env, want, pos, h, m, h', st, rfl, hget, hdiff, hone, rfl, hout⟩ | ⟨env, st, -, -, hout⟩ :=
      inRounds_cases hs
    · obtain rfl := Sum.inl.inj hout
      exact rest_start hall hheap hsome
    · cases hout
    · obtain rfl := Sum.inl.inj hout
      rfl
    · obtain rfl := Sum.inl.inj hout
      exact rest_entry_end hnone
    · obtain rfl := Sum.inl.inj hout
      exact rest_entry_skip hget hsame
    · obtain rfl := Sum.inl.inj hout
      exact rest_entry_switch hget hdiff hone
    · cases hout
  last hs := by
    obtain ⟨c, env, want, action, -, -, -, -, -, hout⟩ | ⟨c, env, st, rfl, hcall, hout⟩ |
      ⟨c, env, -, -, -, hout⟩ | ⟨env, want, pos, -, -, -, hout⟩ |
      ⟨env, want, pos, h, -, -, -, -, hout⟩ |
      ⟨env, want, pos, h, m, h', st, -, -, -, -, -, hout⟩ | ⟨env, st, rfl, rfl, hout⟩ :=
      inRounds_cases hs
    · cases hout
    · obtain rfl := Sum.inr.inj hout
      exact hcall
    · cases hout
    · cases hout
    · cases hout
    · cases hout
    · obtain rfl := Sum.inr.inj hout
      rfl

theorem executes_inRounds : Executes inRounds := fun _ _ _ _ h => inRounds_does.ends h

/-- A call that ends does so in rounds, too. -/
theorem inRounds_ends {s' : MinHook} {st : MH_STATUS} (hcall : mhCall s env c = some (s', st)) :
    inRounds.Ends s (c, env) s' st := by
  refine inRounds_does.ends_of (fun s l => l.left s) ?_ hcall
  intro s s' l l' hs hsome
  obtain ⟨c, env, want, action, rfl, -, -, -, rfl, hout⟩ | ⟨c, env, st, -, -, hout⟩ |
    ⟨c, env, rfl, hnone, -, -⟩ | ⟨env, want, pos, rfl, hnone, rfl, hout⟩ |
    ⟨env, want, pos, h, rfl, hget, -, rfl, hout⟩ |
    ⟨env, want, pos, h, m, h', st, rfl, hget, -, -, rfl, hout⟩ | ⟨env, st, -, -, hout⟩ :=
    inRounds_cases hs
  · obtain rfl := Sum.inl.inj hout
    exact Nat.lt_succ_self _
  · cases hout
  · -- a call that does not end
    rw [CallRound.rest, hnone] at hsome
    cases hsome
  · obtain rfl := Sum.inl.inj hout
    rw [CallRound.left, CallRound.left]
    omega
  · obtain rfl := Sum.inl.inj hout
    have hlt := (List.getElem?_eq_some_iff.mp hget).1
    rw [CallRound.left, CallRound.left]
    omega
  · obtain rfl := Sum.inl.inj hout
    have hlt := (List.getElem?_eq_some_iff.mp hget).1
    split
    · rw [CallRound.left, CallRound.left, setPatched_set, List.length_set]
      omega
    · rw [CallRound.left, CallRound.left]
      omega
  · cases hout

end Rounds

/-! ## Two threads -/

/-- A thread hooks a function and enables all hooks. Another one calls while it does. -/
def twoThreads : List (SpinLock.Act Bool (MhCall × HookEnv) MH_STATUS) :=
  [.call true (.MH_Initialize, calm none), .tryEnter true, .call false (.MH_Initialize, calm none),
    .tryEnter false, .work true, .leave true .MH_OK, .tryEnter false,
    .call true (.MH_CreateHook 0x401000 0x401100, calm (some 0x10000)), .work false, .tryEnter true,
    .leave false .MH_ERROR_ALREADY_INITIALIZED, .tryEnter true, .work true, .leave true .MH_OK,
    -- the loop over the hooks, with rounds of the other thread between its own
    .call true (.EnableHook MH_ALL_HOOKS true, calm none), .tryEnter true, .work true,
    .call false (.EnableHook 0x401000 true, calm none), .tryEnter false, .work true, .work true,
    .tryEnter false, .work true, .leave true .MH_OK, .tryEnter false, .work false,
    .leave false .MH_ERROR_ENABLED]

/-- The library is not initialized, and no thread has called it. -/
def twoStart : SpinLock.State Bool inRounds :=
  ⟨false, { hookedStart with g_hHeap := false }, fun _ => .idle⟩

theorem twoThreads_items : (((SpinLock.machine Bool inRounds twoStart.shared).execWhere
      (enterOk (mhOk hookedApp)) twoStart twoThreads).map fun S => (S.locked, S.shared.items)) =
    some (false, [hookedEntry]) := by
  decide +kernel

theorem mh_serial_two : ∃ S : SpinLock.State Bool inRounds, S.shared.items = [hookedEntry] ∧
    ∃ log : List (Bool × (MhCall × HookEnv) × MH_STATUS),
      log.map (fun e => (e.1, e.2.2)) = returns twoThreads ∧
      (mhMachine hookedApp).RunWhere (mhOk hookedApp) (log.map fun e => e.2.1) S.shared := by
  obtain ⟨S, hexec, hend⟩ := Option.map_eq_some_iff.mp twoThreads_items
  obtain ⟨hfree, hitems⟩ := Prod.mk.inj hend
  have hinit : (SpinLock.machine Bool inRounds twoStart.shared).init twoStart :=
    ⟨rfl, rfl, fun _ => rfl⟩
  have h₀ : (mhMachine hookedApp).init twoStart.shared := ⟨rfl, rfl, rfl⟩
  have hr := Transition.Machine.execWhere_run hinit hexec
  obtain ⟨log, hreturns, -, -, hrun, -⟩ := mh_serial executes_inRounds h₀ hr
  exact ⟨S, hitems, log, hreturns, hrun hfree⟩

end Bossran
