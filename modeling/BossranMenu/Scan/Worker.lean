import BossranMenu.Lib.Machine
import BossranMenu.Scan.Toggles

/-!
# The slot worker and its check box (`Scan.h`)

`monitor` is `BooleanFunct` with the threads it launches, one memory access a step. A worker
(`WorkerPc.exec`) goes round its table for ever; neither of its two places reads `antingongo`.

* `visit_eq_workerVisit`: a visit that nothing interrupts is `World.workerVisit`.
* `MonitorInv`: `started` tells whether the one worker runs.
* `worker_follows_antingongo`: at most one worker is launched. It stores only while `antingongo` is
  set in a run that never clears the flag after the launch; once it is cleared, the worker goes on.
-/

namespace Bossran

open Memory Transition

/-- Where a worker thread stands in its endless loop. -/
inductive WorkerPc where
  /-- At the head of the inner loop, with what is left of the table. -/
  | next (addresses : List DWORD)
  /-- After `memcpy(buffer, address, 4)`. -/
  | compare (address : DWORD) (buffer : List BYTE) (addresses : List DWORD)

/-- `memcpy(buffer, address, 4)` -/
def readBuffer (m : DWORD → BYTE) (address : DWORD) : List BYTE :=
  [m address, m (address + 1), m (address + 2), m (address + 3)]

/-- `memcpy((void*)address, replacementValue, 4)` -/
def World.replace (s : World) (address : DWORD) : World :=
  { s with
    mem := { s.mem with bytes := store s.mem.bytes address replacementValue }
    log := s.log ++ [⟨.fixed address, ⟨address, replacementValue⟩⟩] }

/-- One step of a worker. At the end of its table it sleeps and begins again. -/
def WorkerPc.exec (s : World) : WorkerPc → World × WorkerPc
  | .next [] => (s, .next workerAddresses)
  | .next (address :: addresses) =>
    (s, .compare address (readBuffer s.mem.bytes address) addresses)
  | .compare address buffer addresses =>
    (if buffer ∈ targetValues then s.replace address else s, .next addresses)

structure Monitor where
  world : World
  /-- The workers launched so far. None of them ends. -/
  threads : List WorkerPc

inductive MonitorAction where
  /-- The check boxes of a frame. -/
  | setFlags (flags : Flags)
  /-- The render thread calls `BooleanFunct`; launching a thread succeeds. -/
  | booleanFunct
  /-- Worker `k` goes on. -/
  | worker (k : Nat)
  /-- The game writes its memory. -/
  | game (bytes : DWORD → BYTE)

namespace Monitor

def step (s : Monitor) : MonitorAction → Option Monitor
  | .setFlags flags => some { s with world := { s.world with flags } }
  | .booleanFunct =>
    let world := Bossran.booleanFunct s.world
    some ⟨world,
      s.threads ++ List.replicate (world.workers - s.world.workers) (.next workerAddresses)⟩
  | .worker k => do
    let pc ← s.threads[k]?
    let (world, pc) := pc.exec s.world
    return ⟨world, s.threads.set k pc⟩
  | .game bytes => some { s with world := { s.world with mem := { s.world.mem with bytes } } }

/-- Before the first frame: the flags have their initial values, and `ScriptCaving` may have
searched and patched. -/
structure Init (s : Monitor) : Prop where
  flags : s.world.flags = fun _ => false
  started : s.world.started = false
  workers : s.world.workers = 0
  threads : s.threads = []

/-- Worker `k` is about to store. -/
def Stores (s : Monitor) (k : Nat) : Prop :=
  ∃ s', s.step (.worker k) = some s' ∧ s'.world.log ≠ s.world.log

/-- The step does not clear `antingongo` while a worker runs. -/
def KeepsOn (s : Monitor) (a : MonitorAction) : Prop :=
  ∀ flags, a = .setFlags flags → s.world.started = true → flags .antingongo = true

end Monitor

def monitor : Machine Monitor MonitorAction where
  init := Monitor.Init
  step := Monitor.step

/-! ## A visit -/

theorem reads_iff_readBuffer (m : DWORD → BYTE) (address : DWORD) {target : List BYTE}
    (ht : target.length = 4) : Reads m address target ↔ readBuffer m address = target := by
  obtain ⟨a, b, c, d, rfl⟩ := List.length_eq_four.mp ht
  constructor
  · intro h
    have h0 := h 0 (by simp)
    have h1 := h 1 (by simp)
    have h2 := h 2 (by simp)
    have h3 := h 3 (by simp)
    simp_all [readBuffer]
  · intro h i hi
    simp only [readBuffer, List.cons.injEq, and_true] at h
    obtain ⟨rfl, rfl, rfl, rfl⟩ := h
    match i, hi with
    | 0, _ => simp
    | 1, _ => simp
    | 2, _ => simp
    | 3, _ => simp

theorem readBuffer_mem (m : DWORD → BYTE) (address : DWORD) :
    readBuffer m address ∈ targetValues ↔ ∃ target ∈ targetValues, Reads m address target := by
  have hlen : ∀ target ∈ targetValues, target.length = 4 := by decide
  constructor
  · intro h
    exact ⟨_, h, (reads_iff_readBuffer m address (hlen _ h)).mpr rfl⟩
  · rintro ⟨target, ht, hr⟩
    rwa [(reads_iff_readBuffer m address (hlen target ht)).mp hr]

/-- A visit that nothing interrupts. -/
theorem visit_eq_workerVisit (s : World) (address : DWORD) (addresses : List DWORD) :
    let (s₁, pc) := WorkerPc.exec s (.next (address :: addresses))
    WorkerPc.exec s₁ pc = (s.workerVisit address, .next addresses) := by
  simp only [WorkerPc.exec, World.workerVisit, readBuffer_mem]
  rfl

/-! ## What a step does -/

namespace Monitor

variable {s s' : Monitor}

theorem step_worker {k : Nat} : s.step (.worker k) = some s' ↔
    ∃ pc, s.threads[k]? = some pc ∧
      s' = ⟨(pc.exec s.world).1, s.threads.set k (pc.exec s.world).2⟩ := by
  simp only [step, Option.pure_def, Option.bind_eq_bind, Option.bind_eq_some_iff, Option.some.injEq,
    eq_comm (a := s')]

/-- A worker stores if it has found a target value. -/
theorem stores_iff {k : Nat} : s.Stores k ↔ ∃ address buffer addresses,
    s.threads[k]? = some (.compare address buffer addresses) ∧ buffer ∈ targetValues := by
  simp only [Stores, step_worker]
  constructor
  · rintro ⟨_, ⟨pc, hpc, rfl⟩, hlog⟩
    match pc with
    | .next [] => exact absurd rfl hlog
    | .next (_ :: _) => exact absurd rfl hlog
    | .compare address buffer addresses =>
      refine ⟨address, buffer, addresses, hpc, ?_⟩
      by_contra hb
      simp [WorkerPc.exec, hb] at hlog
  · rintro ⟨address, buffer, addresses, hpc, hb⟩
    refine ⟨_, ⟨_, hpc, rfl⟩, ?_⟩
    simp [WorkerPc.exec, hb, World.replace]

end Monitor

/-- No step of a worker touches the flags of the launch. -/
theorem WorkerPc.exec_frame (s : World) (pc : WorkerPc) :
    (pc.exec s).1.flags = s.flags ∧ (pc.exec s).1.started = s.started ∧
      (pc.exec s).1.workers = s.workers := by
  match pc with
  | .next [] => exact ⟨rfl, rfl, rfl⟩
  | .next (_ :: _) => exact ⟨rfl, rfl, rfl⟩
  | .compare _ buffer _ =>
    by_cases hb : buffer ∈ targetValues <;> simp [WorkerPc.exec, hb, World.replace]

theorem World.writeCalls_launch (s : World) (cs : List (Target × List BYTE)) :
    (s.writeCalls cs).started = s.started ∧ (s.writeCalls cs).workers = s.workers := by
  induction cs generalizing s with
  | nil => exact ⟨rfl, rfl⟩
  | cons c cs ih => exact ih (s.writeBytes c.1 c.2)

/-- `BooleanFunct` launches a worker if the flag is set and none was launched. -/
theorem booleanFunct_launch (s : World) :
    (booleanFunct s).started = (s.started || s.flags .antingongo) ∧
      (booleanFunct s).workers =
        s.workers + if s.flags .antingongo && !s.started then 1 else 0 := by
  obtain ⟨hst, hw⟩ := s.startWorker.writeCalls_launch (toggleCalls s.flags)
  rw [booleanFunct, hst, hw]
  cases hf : s.flags .antingongo <;> cases hs : s.started <;> simp [World.startWorker, hf, hs]

/-! ## Runs -/

/-- One worker runs if `started` is set, else none. -/
def MonitorInv (s : Monitor) : Prop := s.threads.length = if s.world.started then 1 else 0

variable {s s' : Monitor} {tr : List MonitorAction}

theorem Monitor.Init.inv (h : s.Init) : MonitorInv s := by
  rw [MonitorInv, h.threads, h.started]
  rfl

theorem Monitor.step_inv (h : MonitorInv s) {a : MonitorAction} (hs : s.step a = some s') :
    MonitorInv s' := by
  unfold MonitorInv at h ⊢
  cases a with
  | setFlags flags =>
    cases hs
    exact h
  | booleanFunct =>
    cases hs
    obtain ⟨hst, hw⟩ := booleanFunct_launch s.world
    simp only [hst, hw, List.length_append, List.length_replicate, h]
    cases s.world.started <;> cases s.world.flags .antingongo <;> simp
  | worker k =>
    obtain ⟨pc, -, rfl⟩ := Monitor.step_worker.mp hs
    rw [List.length_set, h, (pc.exec_frame s.world).2.1]
  | game bytes =>
    cases hs
    exact h

theorem inv_monitor (h : monitor.Run tr s) : MonitorInv s :=
  h.state_invariant (I := MonitorInv) (fun _ hi => Monitor.Init.inv hi)
    fun _ _ _ hi hs => Monitor.step_inv hi hs

/-- If no step clears the flag while a worker runs, it is set while one runs. -/
theorem on_of_started (h : monitor.RunWhere Monitor.KeepsOn tr s) :
    s.world.started = true → s.world.flags .antingongo = true := by
  refine h.invariant (I := fun _ s => s.world.started = true → s.world.flags .antingongo = true)
    (fun s hi hst => ?_) fun tr s a s' _ ih hok hs => ?_
  · rw [hi.started] at hst
    cases hst
  · cases a with
    | setFlags flags =>
      cases hs
      exact hok flags rfl
    | booleanFunct =>
      cases hs
      obtain ⟨hst, -⟩ := booleanFunct_launch s.world
      simp only [hst, booleanFunct_flags, Bool.or_eq_true]
      exact fun h => h.elim ih id
    | worker k =>
      obtain ⟨pc, -, rfl⟩ := Monitor.step_worker.mp hs
      obtain ⟨hf, hst, -⟩ := pc.exec_frame s.world
      rw [hf, hst]
      exact ih
    | game bytes =>
      cases hs
      exact ih

/-- Only a running worker stores. -/
theorem started_of_stores (h : MonitorInv s) {k : Nat} (hs : s.Stores k) :
    s.world.started = true := by
  obtain ⟨_, _, _, hk, -⟩ := Monitor.stores_iff.mp hs
  obtain ⟨hlt, -⟩ := List.getElem?_eq_some_iff.mp hk
  by_contra hst
  rw [Bool.not_eq_true] at hst
  rw [MonitorInv, hst] at h
  simp [h] at hlt

/-- The only worker takes a step. -/
theorem step_onlyWorker {pc : WorkerPc} (hr : monitor.Run tr s) (ht : s.threads = [pc]) :
    ∃ s', monitor.Run (tr ++ [.worker 0]) s' ∧ s'.world.flags = s.world.flags ∧
      s'.threads = [(pc.exec s.world).2] := by
  have hs : monitor.step s (.worker 0) = some _ :=
    Monitor.step_worker.mpr ⟨pc, by rw [ht]; rfl, rfl⟩
  exact ⟨_, hr.step _ trivial hs, (pc.exec_frame s.world).1, by rw [ht]; rfl⟩

/-- The worker comes back to the head of its inner loop, with something left of the table. -/
theorem next_ahead {pc : WorkerPc} (hr : monitor.Run tr s) (ht : s.threads = [pc]) :
    ∃ tr' s' address addresses, tr <+: tr' ∧ monitor.Run tr' s' ∧
      s'.world.flags = s.world.flags ∧ s'.threads = [.next (address :: addresses)] := by
  have hnext : ∀ {tr s} addresses, monitor.Run tr s → s.threads = [.next addresses] →
      ∃ tr' s' address addresses, tr <+: tr' ∧ monitor.Run tr' s' ∧
        s'.world.flags = s.world.flags ∧ s'.threads = [.next (address :: addresses)] := by
    intro tr s addresses hr ht
    cases addresses with
    | nil =>
      obtain ⟨s', hr', hf, ht'⟩ := step_onlyWorker hr ht
      exact ⟨_, s', _, _, List.prefix_append .., hr', hf, ht'⟩
    | cons address addresses => exact ⟨tr, s, _, _, List.prefix_rfl, hr, rfl, ht⟩
  cases pc with
  | next addresses => exact hnext addresses hr ht
  | compare address buffer addresses =>
    obtain ⟨s₁, hr₁, hf₁, ht₁⟩ := step_onlyWorker hr ht
    obtain ⟨tr', s', a, as, htr, hr', hf, ht'⟩ := hnext addresses hr₁ ht₁
    exact ⟨tr', s', a, as, (List.prefix_append ..).trans htr, hr', hf.trans hf₁, ht'⟩

/-- Whatever the flags, a running worker stores as soon as the game has put a target value where it
looks next. -/
theorem stores_ahead (hr : monitor.Run tr s) (hst : s.world.started = true) :
    ∃ tr' s', tr <+: tr' ∧ monitor.Run tr' s' ∧ s'.world.flags = s.world.flags ∧ s'.Stores 0 := by
  have hlen := inv_monitor hr
  rw [MonitorInv, hst, if_pos rfl] at hlen
  obtain ⟨pc, ht⟩ := List.length_eq_one_iff.mp hlen
  obtain ⟨tr₁, s₁, address, addresses, htr₁, hr₁, hf₁, ht₁⟩ := next_ahead hr ht
  let bytes := store s₁.world.mem.bytes address [0x38, 0x00, 0x26, 0x00]
  have hr₂ := hr₁.step (.game bytes) trivial rfl
  obtain ⟨s₃, hr₃, hf₃, ht₃⟩ := step_onlyWorker hr₂ ht₁
  refine ⟨_, s₃, ?_, hr₃, hf₃.trans hf₁, Monitor.stores_iff.mpr ⟨_, _, _, by rw [ht₃]; rfl, ?_⟩⟩
  · exact htr₁.trans ((List.prefix_append ..).trans (List.prefix_append ..))
  · exact (readBuffer_mem bytes address).mpr ⟨_, List.mem_cons_self .., store_reads _ _ (by decide)⟩

/-- At most one worker is ever launched. In a run that never clears `antingongo` while it runs, it
stores only while the flag is set; where the flag is clear and the worker runs, it can go on to
store. -/
theorem worker_follows_antingongo (h : monitor.Run tr s) :
    s.threads.length ≤ 1 ∧
    (monitor.RunWhere Monitor.KeepsOn tr s →
      ∀ k, s.Stores k → s.world.flags .antingongo = true) ∧
    (s.world.started = true → s.world.flags .antingongo = false →
      ∃ tr' s', tr <+: tr' ∧ monitor.Run tr' s' ∧ s'.world.flags .antingongo = false ∧
        s'.Stores 0) := by
  have hinv := inv_monitor h
  refine ⟨?_, fun hon k hk => on_of_started hon (started_of_stores hinv hk), fun hst hoff => ?_⟩
  · rw [hinv]
    split <;> omega
  · obtain ⟨tr', s', htr, hr, hf, hs⟩ := stores_ahead h hst
    exact ⟨tr', s', htr, hr, by rw [hf, hoff], hs⟩

/-! ## Two runs -/

/-- Before the first frame, with empty memory. -/
def emptyMonitor : Monitor := ⟨World.init ⟨fun _ => 0, fun _ => 0x40⟩, []⟩

/-- The first slot of the table holds a target value. -/
def dogSlot : DWORD → BYTE :=
  store (fun _ => 0) 0x02678E54 [0x38, 0x00, 0x26, 0x00]

def onlyAntingongo : Flags := fun f => f = .antingongo

/-- The flag is set, the worker launched, and the target value found. -/
theorem worker_follows_antingongo_on :
    ∃ s, monitor.Run [.setFlags onlyAntingongo, .booleanFunct, .game dogSlot, .worker 0] s ∧
      s.threads.length ≤ 1 ∧ ∀ k, s.Stores k → s.world.flags .antingongo = true := by
  have hrun : ∃ s, monitor.RunWhere Monitor.KeepsOn
      [.setFlags onlyAntingongo, .booleanFunct, .game dogSlot, .worker 0] s := by
    have h₀ : monitor.RunWhere Monitor.KeepsOn [] emptyMonitor := .init ⟨rfl, rfl, rfl, rfl⟩
    have h₁ := h₀.step (.setFlags onlyAntingongo) (fun _ _ h => by cases h) rfl
    have h₂ := h₁.step .booleanFunct (fun _ h => by cases h) rfl
    have h₃ := h₂.step (.game dogSlot) (fun _ h => by cases h) rfl
    have h₄ := h₃.step (.worker 0) (fun _ h => by cases h) rfl
    exact ⟨_, h₄⟩
  obtain ⟨s, hon⟩ := hrun
  obtain ⟨hlen, hstores, -⟩ := worker_follows_antingongo hon.run
  exact ⟨s, hon.run, hlen, hstores hon⟩

/-- The check box is cleared again: the worker still stores. -/
theorem not_worker_follows_antingongo_cleared :
    ∃ s, monitor.Run [.setFlags onlyAntingongo, .booleanFunct, .setFlags fun _ => false,
      .game dogSlot, .worker 0] s ∧ s.world.flags .antingongo = false ∧ s.Stores 0 := by
  have h₀ : monitor.Run [] emptyMonitor := .init ⟨rfl, rfl, rfl, rfl⟩
  have h₁ := h₀.step (.setFlags onlyAntingongo) trivial rfl
  have h₂ := h₁.step .booleanFunct trivial rfl
  have h₃ := h₂.step (.setFlags fun _ => false) trivial rfl
  have h₄ := h₃.step (.game dogSlot) trivial rfl
  have h₅ := h₄.step (.worker 0) trivial rfl
  refine ⟨_, h₅, rfl, Monitor.stores_iff.mpr ⟨_, _, _, rfl, ?_⟩⟩
  decide

end Bossran
