import BossranMenu.Gate

/-!
# What a granted licence rests on

`Evidence tr`: the trace has a SID that `GetComputerSid` returned, not empty, and later a downloaded
body that contains it. `Owed` says where evidence must be in the trace already, and which targets a
thread may carry.

* `scriptCaving_evidence`: as long as no download is searched for the empty target, `ScriptCaving`
  and `Form2` rest on evidence.
* `granted_offline`: if `GetComputerSid` fails, the empty target is found in whatever came back, and
  the run ends in `Form2` without evidence.
-/

namespace Bossran

open Transition

/-- A non-empty SID was obtained, and a later download contained it. -/
def Evidence (tr : List Action) : Prop :=
  ∃ pre mid post t u calls http body,
    tr = pre ++ .getComputerSid t calls :: mid ++ .download u http :: post ∧
      getComputerSid calls ≠ [] ∧ http.body = some body ∧ getComputerSid calls <:+: body

/-- `GetComputerSid` returned `sid`. -/
def Obtained (tr : List Action) (sid : List BYTE) : Prop :=
  ∃ t calls, .getComputerSid t calls ∈ tr ∧ getComputerSid calls = sid

/-- No download is searched for the empty target. -/
def NoEmptySearch (s : State) : Action → Prop
  | .download t _ => s.thread t ≠ .isHWIDPresent []
  | _ => True

instance (s : State) (a : Action) : Decidable (NoEmptySearch s a) := by
  cases a <;> unfold NoEmptySearch <;> infer_instance

/-- Where a thread stands only with evidence. -/
def ThreadPc.granted : ThreadPc → Bool
  | .setValidated | .storeValid true => true
  | _ => false

/-- The target that a thread carries. -/
def ThreadPc.target : ThreadPc → List BYTE
  | .testValidated HWIDTarget | .isHWIDPresent HWIDTarget => HWIDTarget
  | _ => []

structure Owed (tr : List Action) (s : State) : Prop where
  validated : s.isHWIDValidated = true → Evidence tr
  valid : s.isHWIDValid = true → Evidence tr
  granted : ∀ t, (s.thread t).granted = true → Evidence tr
  target : ∀ t, (s.thread t).target ≠ [] → Obtained tr (s.thread t).target

variable {tr : List Action}

theorem Evidence.append (h : Evidence tr) (as : List Action) : Evidence (tr ++ as) := by
  obtain ⟨pre, mid, post, t, u, calls, http, body, rfl, h⟩ := h
  exact ⟨pre, mid, post ++ as, t, u, calls, http, body, by simp, h⟩

theorem Obtained.append {sid : List BYTE} (h : Obtained tr sid) (as : List Action) :
    Obtained (tr ++ as) sid := by
  obtain ⟨t, calls, hmem, h⟩ := h
  exact ⟨t, calls, List.mem_append_left _ hmem, h⟩

/-- A download that contains a SID obtained before is evidence. -/
theorem Obtained.evidence {sid : List BYTE} (h : Obtained tr sid) (hne : sid ≠ []) {t : Launcher}
    {http : HttpCalls} {body : List BYTE} (hb : http.body = some body) (hin : sid <:+: body) :
    Evidence (tr ++ [.download t http]) := by
  obtain ⟨u, calls, hmem, rfl⟩ := h
  obtain ⟨pre, mid, rfl⟩ := List.append_of_mem hmem
  exact ⟨pre, mid, [], u, t, calls, http, body, by simp, hne, hb, hin⟩

variable {s s' : State}

/-- A step after which no more is owed. -/
theorem Owed.mono (h : Owed tr s) (as : List Action)
    (hvd : s'.isHWIDValidated = true → s.isHWIDValidated = true)
    (hv : s'.isHWIDValid = true → s.isHWIDValid = true)
    (ht : ∀ t, s'.thread t = s.thread t ∨
      (s'.thread t).granted = false ∧ (s'.thread t).target = []) : Owed (tr ++ as) s' := by
  refine ⟨fun e => (h.validated (hvd e)).append as, fun e => (h.valid (hv e)).append as, ?_, ?_⟩
  · intro t e
    rcases ht t with ht | ⟨ht, -⟩
    · exact (h.granted t (ht ▸ e)).append as
    · rw [ht] at e
      cases e
  · intro t e
    rcases ht t with ht | ⟨-, ht⟩
    · rw [ht] at e ⊢
      exact (h.target t e).append as
    · exact absurd ht e

/-- A thread moves on to `pc`. -/
theorem Owed.goto (h : Owed tr s) (as : List Action) {t : Launcher} {pc : ThreadPc}
    (hg : pc.granted = true → Evidence (tr ++ as))
    (ht : pc.target ≠ [] → Obtained (tr ++ as) pc.target) : Owed (tr ++ as) (s.goto t pc) := by
  refine ⟨fun e => (h.validated e).append as, fun e => (h.valid e).append as, ?_, ?_⟩
  · intro u e
    by_cases hu : u = t
    · subst hu
      exact hg (by simpa [State.goto] using e)
    · exact (h.granted u (by simpa [State.goto, hu] using e)).append as
  · intro u e
    by_cases hu : u = t
    · subst hu
      simp only [State.goto, Function.update_self] at e ⊢
      exact ht e
    · simp only [State.goto, Function.update_of_ne hu] at e ⊢
      exact (h.target u e).append as

theorem threadStep_owed (h : Owed tr s) {t : Launcher} (hs : threadStep s t = some s') :
    Owed (tr ++ [.thread t]) s' := by
  unfold threadStep at hs
  split at hs
  · cases hs
    refine h.goto _ ?_ ?_ <;> split <;> simp [ThreadPc.granted, ThreadPc.target]
  · rename_i HWIDTarget ht
    cases hs
    have htarget := h.target t
    rw [ht] at htarget
    by_cases hv : s.isHWIDValidated = true
    · rw [if_pos hv]
      exact h.goto _ (fun _ => (h.validated hv).append _) fun e => absurd rfl e
    · rw [if_neg hv]
      exact h.goto _ nofun fun e => (htarget e).append _
  · rename_i ht
    cases hs
    have hev : Evidence tr := h.granted t (by rw [ht]; rfl)
    exact Owed.goto (s := { s with isHWIDValidated := true })
      ⟨fun _ => hev, h.valid, h.granted, h.target⟩ _ (fun _ => hev.append _) (fun e => absurd rfl e)
  · rename_i valid ht
    cases hs
    refine Owed.goto (s := { s with isHWIDValid := valid })
      ⟨h.validated, fun e => ?_, h.granted, h.target⟩ _ nofun (fun e => absurd rfl e)
    simp only at e
    exact h.granted t (by rw [ht, e]; rfl)
  · cases hs
    refine Owed.goto (s := { s with isHWIDValidationCompleted := true })
      ⟨h.validated, h.valid, h.granted, h.target⟩ _ ?_ ?_ <;>
      split <;> simp [ThreadPc.granted, ThreadPc.target]
  · cases hs
    exact h.goto _ nofun fun e => absurd rfl e
  · cases hs

variable {minia : Option GameModule} {caves : Cave → DWORD}

theorem uiStep_validated (s : State) (i : Input) :
    (uiStep minia caves s i).isHWIDValidated = s.isHWIDValidated := by
  unfold uiStep
  repeat' split
  all_goals rfl

theorem uiStep_owed (h : Owed tr s) (i : Input) :
    Owed (tr ++ [.ui i]) (uiStep minia caves s i) := by
  refine h.mono _ (fun e => uiStep_validated s i ▸ e)
    (fun e => (uiStep_atomics minia caves s i).1 ▸ e) fun t => ?_
  rcases uiStep_thread minia caves s i t with ht | ⟨-, ht⟩
  · exact .inl ht
  · rw [ht]
    cases t <;> exact .inr ⟨rfl, rfl⟩

theorem step_owed (h : Owed tr s) {a : Action} (hok : NoEmptySearch s a)
    (hs : step minia caves s a = some s') : Owed (tr ++ [a]) s' := by
  obtain ⟨-, hs⟩ := step_cases hs
  cases a with
  | thread t => exact threadStep_owed h hs
  | getComputerSid t calls =>
    obtain ⟨-, rfl⟩ := hs
    exact h.goto _ nofun fun _ => ⟨t, calls, by simp, rfl⟩
  | download t calls =>
    obtain ⟨HWIDTarget, pasteContent, ht, hb, rfl⟩ := hs
    have hne : HWIDTarget ≠ [] := fun e => hok (e ▸ ht)
    have hobt := h.target t
    rw [ht] at hobt
    refine h.goto _ (fun e => ?_) (fun e => ?_)
    · split at e
      · rename_i hp
        exact (hobt hne).evidence hne hb (isHWIDPresent_iff.mp hp)
      · cases e
    · split at e <;> exact absurd rfl e
  | badAlloc t =>
    obtain ⟨_, -, rfl⟩ := hs
    exact h.goto _ nofun fun e => absurd rfl e
  | ui i =>
    cases hs
    exact uiStep_owed h i
  | worker address =>
    cases hs
    exact h.mono _ id id fun _ => .inl rfl
  | game bytes =>
    cases hs
    exact h.mono _ id id fun _ => .inl rfl

theorem owed_run (h : (machine minia caves).RunWhere NoEmptySearch tr s) : Owed tr s := by
  refine h.invariant (I := Owed) ?_ fun tr s a s' _ hI hok hs => step_owed hI hok hs
  rintro s ⟨m, rfl⟩
  exact ⟨nofun, nofun, fun t => nofun, fun t e => absurd rfl e⟩

/-- In every run that searches no download for the empty target, `ScriptCaving` is executed and
`Form2` shown only after a SID that is not empty was obtained and found in a downloaded body. -/
theorem scriptCaving_evidence (h : (machine minia caves).RunWhere NoEmptySearch tr s)
    (hs : 0 < s.caved ∨ s.form2Show = true) : Evidence tr := by
  have hi := inv_run h
  have h2 : s.form2Show = true := by
    rcases hs with hs | hs
    · by_contra h2
      rw [hi.caved, if_neg h2] at hs
      omega
    · exact hs
  exact (owed_run h).valid (hi.gate.shown (.inr h2)).2

theorem scriptCaving_evidence_granted : Evidence (grantRun sampleSid sampleDownload) := by
  have h : ∃ s, (machine none noCaves).RunWhere NoEmptySearch (grantRun sampleSid sampleDownload) s ∧
      s.form2Show = true :=
    Machine.exists_run ⟨⟨fun _ => 0, fun _ => 0x20⟩, rfl⟩ ⟨_, rfl, rfl⟩
  obtain ⟨s, hr, h2⟩ := h
  exact scriptCaving_evidence hr (.inr h2)

/-- `OpenProcessToken` fails, and there is no network. -/
def offlineSid : SidCalls := ⟨false, 0, false, none⟩

def offlineDownload : HttpCalls := ⟨false, false, false, false, false, []⟩

/-- With `GetComputerSid` failing the empty target is found in the empty body, and the run ends in
`Form2` although no SID was ever obtained. -/
theorem granted_offline : ∃ s, (machine none noCaves).Run (grantRun offlineSid offlineDownload) s ∧
    s.caved = 1 ∧ s.form2Show = true ∧ ¬ Evidence (grantRun offlineSid offlineDownload) := by
  have h : ∃ s, (machine none noCaves).Run (grantRun offlineSid offlineDownload) s ∧
      s.caved = 1 ∧ s.form2Show = true :=
    Machine.exists_run ⟨⟨fun _ => 0, fun _ => 0x20⟩, rfl⟩ ⟨_, rfl, rfl, rfl⟩
  obtain ⟨s, hr, hc, h2⟩ := h
  refine ⟨s, hr, hc, h2, ?_⟩
  rintro ⟨pre, mid, post, t, u, calls, http, body, htr, hne, -, -⟩
  have hmem : Action.getComputerSid t calls ∈ grantRun offlineSid offlineDownload := by
    rw [htr]
    simp
  simp only [grantRun, List.mem_cons, List.not_mem_nil, reduceCtorEq, false_or, or_false,
    Action.getComputerSid.injEq] at hmem
  exact hne (by rw [hmem.2]; rfl)

end Bossran
