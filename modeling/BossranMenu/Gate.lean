import BossranMenu.Menu

/-!
# The licence gate

What authorises the user is spread over two atomics, up to three validation threads and the flags
of four forms. `Gate` is that part of a `State`; `GateInv` says how its pieces fit together and
`UiInv` where the render thread can stand. Both hold in every reachable state (`inv_run`).

* `step_cases`: what each action needs and does.
* `step_mono`: no step takes an authorisation back.
* `authorisation_consistent`: the atomics and the visible form agree in every run.
* `caved_le_one`: no run executes `ScriptCaving` twice.
-/

namespace Bossran

open Transition

/-- Between the call of `GetComputerSid` and the store of its verdict. -/
def ThreadPc.busy : ThreadPc → Bool
  | .getComputerSid | .testValidated _ | .isHWIDPresent _ | .setValidated | .storeValid _ => true
  | _ => false

/-- Where the render thread may stand before a validation is completed. -/
def UiPc.waiting : UiPc → Bool
  | .idle | .form4 | .form4Completed | .dispatch => true
  | _ => false

def UiPc.inForm4 : UiPc → Bool
  | .form4 | .form4Completed | .form4CompletedAgain | .form4Valid => true
  | _ => false

def UiPc.inForm3 : UiPc → Bool
  | .form3 | .form3Completed _ | .form3Valid _ | .form3Fields _ | .form3Send _ | .form3Proceed
  | .form3ProceedValid | .form3ProceedButton => true
  | _ => false

/-- Where the render thread stands in `Form1`, short of its failure branch. -/
def UiPc.inForm1 : UiPc → Bool
  | .form1 | .form1Completed | .form1Valid | .form1Success => true
  | _ => false

/-- Where the render thread stands only if the user is authorised. -/
def UiPc.authorised (pc : UiPc) : Bool := pc.inForm1 || pc = .form2 || pc = .form3ProceedButton

/-! ## The gate -/

structure Gate where
  valid : Bool
  completed : Bool
  thread : Launcher → ThreadPc
  form1Show : Bool
  form2Show : Bool
  form3Show : Bool
  form4Show : Bool

def State.gate (s : State) : Gate where
  valid := s.isHWIDValid
  completed := s.isHWIDValidationCompleted
  thread := s.thread
  form1Show := s.form1Show
  form2Show := s.form2Show
  form3Show := s.form3Show
  form4Show := s.form4Show

structure GateInv (g : Gate) : Prop where
  /-- Before a validation is completed only `Form4` is shown and only its thread runs. -/
  pending : g.completed = false →
    g.thread .form3 = .notStarted ∧ g.form3Show = false ∧ g.form4Show = true
  form4Thread : g.completed = true → g.thread .form4 = .finished
  /-- Once the user is valid no verdict is on its way. -/
  settled : g.valid = true → g.thread .form4 ≠ .notStarted ∧ ∀ t, (g.thread t).busy = false
  form1Thread : g.thread .form1 ≠ .notStarted → g.completed = true ∧ g.valid = true ∧
    (g.thread .form1 = .loopTest ∨ g.thread .form1 = .finished)
  shown : g.form1Show = true ∨ g.form2Show = true → g.completed = true ∧ g.valid = true

/-- Where the render thread can stand. -/
structure UiInv (g : Gate) (pc : UiPc) : Prop where
  waiting : g.completed = false → pc.waiting = true
  form4Show : pc.inForm4 = true → g.form4Show = true
  form2Show : pc.inForm1 = true → g.form2Show = false
  authorised : pc.authorised = true → g.completed = true ∧ g.valid = true
  notInvalid : pc ≠ .form1Invalid

namespace Gate

/-- A validation thread moves on. -/
def goto (g : Gate) (t : Launcher) (pc : ThreadPc) : Gate :=
  { g with thread := Function.update g.thread t pc }

def launch (g : Gate) (t : Launcher) (start : ThreadPc) : Gate :=
  { g with thread := if g.thread t = .notStarted then Function.update g.thread t start else g.thread }

@[simp] theorem goto_self (g : Gate) (t : Launcher) (pc : ThreadPc) :
    (g.goto t pc).thread t = pc :=
  Function.update_self ..

theorem goto_of_ne (g : Gate) {t u : Launcher} (pc : ThreadPc) (h : u ≠ t) :
    (g.goto t pc).thread u = g.thread u :=
  Function.update_of_ne h ..

@[simp] theorem goto_completed (g : Gate) (t : Launcher) (pc : ThreadPc) :
    (g.goto t pc).completed = g.completed := rfl

end Gate

section

variable {g : Gate}

/-- A thread that has something to do: what its kind and place tell. -/
theorem GateInv.active (h : GateInv g) {t : Launcher} (hs : g.thread t ≠ .notStarted)
    (hf : g.thread t ≠ .finished) :
    (t = .form4 → g.completed = false) ∧ (t = .form3 → g.completed = true) ∧
      (t = .form1 → g.completed = true ∧ g.valid = true ∧ g.thread t = .loopTest) := by
  refine ⟨?_, ?_, ?_⟩
  · rintro rfl
    by_contra hc
    exact hf (h.form4Thread (by simpa using hc))
  · rintro rfl
    by_contra hc
    exact hs (h.pending (by simpa using hc)).1
  · rintro rfl
    obtain ⟨hc, hv, hl | hl⟩ := h.form1Thread hs
    · exact ⟨hc, hv, hl⟩
    · exact absurd hl hf

theorem GateInv.completed_of_form3Show (h : GateInv g) (h3 : g.form3Show = true) :
    g.completed = true := by
  by_contra hc
  rw [(h.pending (by simpa using hc)).2.1] at h3
  cases h3

theorem GateInv.completed_of_form4Show (h : GateInv g) (h4 : g.form4Show = false) :
    g.completed = true := by
  by_contra hc
  rw [(h.pending (by simpa using hc)).2.2] at h4
  cases h4

/-- A thread may move on as long as it comes to no verdict about a valid user, the one of `Form4`
ends with the validation, the one of `Form3` waits for it, and the one of `Form1` has nothing to
do. -/
theorem GateInv.goto (h : GateInv g) {t : Launcher} {pc : ThreadPc} (hs : pc ≠ .notStarted)
    (hb : g.valid = true → pc.busy = false)
    (h4 : t = .form4 → g.completed = true → pc = .finished) (h3 : t = .form3 → g.completed = true)
    (h1 : t = .form1 → g.completed = true ∧ g.valid = true ∧ (pc = .loopTest ∨ pc = .finished)) :
    GateInv (g.goto t pc) := by
  constructor
  · intro hc
    obtain ⟨hp3, hp⟩ := h.pending hc
    refine ⟨?_, hp⟩
    have ht : t ≠ .form3 := fun ht => by simp [h3 ht] at hc
    rw [Gate.goto_of_ne _ _ ht.symm, hp3]
  · intro hc
    by_cases ht : t = .form4
    · subst ht
      rw [Gate.goto_self, h4 rfl hc]
    · rw [Gate.goto_of_ne _ _ (Ne.symm ht), h.form4Thread hc]
  · intro hv
    obtain ⟨h4s, hbusy⟩ := h.settled hv
    constructor
    · by_cases ht : t = .form4
      · subst ht
        rwa [Gate.goto_self]
      · rwa [Gate.goto_of_ne _ _ (Ne.symm ht)]
    · intro u
      by_cases hu : u = t
      · subst hu
        rw [Gate.goto_self, hb hv]
      · rw [Gate.goto_of_ne _ _ hu, hbusy u]
  · intro hn
    by_cases ht : t = .form1
    · subst ht
      rw [Gate.goto_self]
      exact h1 rfl
    · rw [Gate.goto_of_ne _ _ (Ne.symm ht)] at hn ⊢
      exact h.form1Thread hn
  · exact h.shown

theorem gate_busy {s : State} {t : Launcher} {pc : ThreadPc} (ht : s.thread t = pc)
    (hb : pc.busy = true) : (s.gate.thread t).busy = true := by
  rw [show s.gate.thread t = pc from ht]
  exact hb

/-- A thread that works on a verdict: the user is not valid yet. -/
theorem GateInv.of_busy (h : GateInv g) {t : Launcher} (hb : (g.thread t).busy = true) :
    g.valid = false ∧ t ≠ .form1 ∧ (t = .form4 → g.completed = false) ∧
      (t = .form3 → g.completed = true) := by
  have hv : g.valid = false := by
    by_contra hv
    rw [(h.settled (by simpa using hv)).2 t] at hb
    cases hb
  obtain ⟨h4, h3, h1⟩ := h.active (t := t) (fun e => by simp [e, ThreadPc.busy] at hb)
    (fun e => by simp [e, ThreadPc.busy] at hb)
  exact ⟨hv, fun e => by simp [hv] at h1; exact h1 e, h4, h3⟩

theorem GateInv.goto_of_busy (h : GateInv g) {t : Launcher} (hb : (g.thread t).busy = true)
    {pc : ThreadPc} (hs : pc ≠ .notStarted) : GateInv (g.goto t pc) := by
  obtain ⟨hv, h1, h4, h3⟩ := h.of_busy hb
  refine h.goto hs (fun e => ?_) (fun e hc => ?_) h3 fun e => absurd e h1
  · rw [hv] at e
    cases e
  · rw [h4 e] at hc
    cases hc

/-- The thread of `Form1` waits for a valid user. -/
theorem GateInv.form1_notStarted (h : GateInv g) (hv : g.valid = false) :
    g.thread .form1 = .notStarted := by
  by_contra hn
  have hvalid := (h.form1Thread hn).2.1
  rw [hv] at hvalid
  cases hvalid

/-- While a thread works on a verdict, the others have nothing to do: the one of `Form1` waits for
a valid user, and of the other two one runs before the validation is completed and one after. -/
theorem GateInv.others (h : GateInv g) {t u : Launcher} (hb : (g.thread t).busy = true)
    (hu : u ≠ t) : (u = .form4 → g.thread u = .finished) ∧
      (g.thread u = .finished ∨ g.thread u = .notStarted) := by
  obtain ⟨hv, ht1, h4, h3⟩ := h.of_busy hb
  cases u with
  | form1 => exact ⟨nofun, .inr (h.form1_notStarted hv)⟩
  | form3 =>
    have ht4 : t = .form4 := by
      cases t with
      | form4 => rfl
      | form3 => exact absurd rfl hu
      | form1 => exact absurd rfl ht1
    exact ⟨nofun, .inr (h.pending (h4 ht4)).1⟩
  | form4 =>
    have ht3 : t = .form3 := by
      cases t with
      | form4 => exact absurd rfl hu
      | form3 => rfl
      | form1 => exact absurd rfl ht1
    have hfin := h.form4Thread (h3 ht3)
    exact ⟨fun _ => hfin, .inl hfin⟩

/-- A verdict is stored by a thread that came to it. -/
theorem GateInv.storeValid (h : GateInv g) {t : Launcher} {valid : Bool}
    (ht : g.thread t = .storeValid valid) : GateInv ({ g with valid }.goto t .storeCompleted) := by
  have hb : (g.thread t).busy = true := by
    rw [ht]
    rfl
  obtain ⟨hv, ht1, h4, h3⟩ := h.of_busy hb
  constructor
  · intro hc
    have ht3 : t ≠ .form3 := fun e => by simp [h3 e] at hc
    obtain ⟨hp3, hp⟩ := h.pending hc
    refine ⟨?_, hp⟩
    rw [Gate.goto_of_ne _ _ ht3.symm, hp3]
  · intro hc
    have ht4 : t ≠ .form4 := fun e => by simp [h4 e] at hc
    rw [Gate.goto_of_ne _ _ ht4.symm, h.form4Thread hc]
  · intro _
    constructor
    · by_cases hu : Launcher.form4 = t
      · rw [← hu, Gate.goto_self]
        simp
      · rw [Gate.goto_of_ne _ _ hu]
        simp [(h.others hb hu).1 rfl]
    · intro u
      by_cases hu : u = t
      · rw [hu, Gate.goto_self]
        rfl
      · rw [Gate.goto_of_ne _ _ hu]
        rcases (h.others hb hu).2 with e | e <;> simp [e, ThreadPc.busy]
  · intro hn
    rw [Gate.goto_of_ne _ _ ht1.symm] at hn
    exact absurd (h.form1_notStarted hv) hn
  · intro hs
    have hvalid := (h.shown hs).2
    rw [hv] at hvalid
    cases hvalid

/-- The end of a validation, by the thread that stored its verdict. -/
theorem GateInv.storeCompleted (h : GateInv g) {t : Launcher} (ht : g.thread t = .storeCompleted) :
    GateInv ({ g with completed := true }.goto t
      (if t = Launcher.form4 then .finished else .sleep)) := by
  obtain ⟨h4, h3, h1⟩ := h.active (t := t) (by rw [ht]; simp) (by rw [ht]; simp)
  have ht1 : t ≠ .form1 := fun e => by simp [ht] at h1; exact h1 e
  have hg : GateInv
      { g with completed := true, thread := Function.update g.thread .form4 .finished } := by
    constructor
    · intro hc
      cases hc
    · intro _
      simp
    · intro hv
      obtain ⟨-, hb⟩ := h.settled hv
      refine ⟨by simp, fun u => ?_⟩
      by_cases hu : u = .form4
      · subst hu
        simp [ThreadPc.busy]
      · simpa [hu] using hb u
    · intro hn
      simp only [ne_eq, reduceCtorEq, not_false_eq_true, Function.update_of_ne] at hn ⊢
      obtain ⟨-, hv⟩ := h.form1Thread hn
      exact ⟨trivial, hv⟩
    · intro hs
      exact ⟨rfl, (h.shown hs).2⟩
  cases t with
  | form4 => exact hg
  | form1 => exact absurd rfl ht1
  | form3 =>
    have hfin := h.form4Thread (h3 rfl)
    have hupd : Function.update g.thread .form4 .finished = g.thread := by
      rw [← hfin, Function.update_eq_self]
    rw [hupd] at hg
    exact hg.goto (by simp) (fun _ => rfl) nofun (fun _ => rfl) nofun

theorem GateInv.launch (h : GateInv g) {t : Launcher} {start : ThreadPc}
    (hg : g.thread t = .notStarted → GateInv (g.goto t start)) : GateInv (g.launch t start) := by
  unfold Gate.launch
  split
  · exact hg ‹_›
  · exact h

/-- The forms may change as long as nothing but `Form4` is shown before the validation is completed
and `Form1` and `Form2` only to a valid user. -/
theorem GateInv.forms (h : GateInv g) {form1Show form2Show form3Show form4Show : Bool}
    (hp : g.completed = false → form3Show = false ∧ form4Show = true)
    (hs : form1Show = true ∨ form2Show = true → g.completed = true ∧ g.valid = true) :
    GateInv { g with form1Show, form2Show, form3Show, form4Show } :=
  ⟨fun hc => ⟨(h.pending hc).1, hp hc⟩, h.form4Thread, h.settled, h.form1Thread, hs⟩

/-- The render thread stands where it may, whatever a validation thread did meanwhile. -/
theorem UiInv.mono {g' : Gate} {pc : UiPc} (h : UiInv g pc)
    (hc : g.completed = true → g'.completed = true) (hv : g.valid = true → g'.valid = true)
    (h4 : g'.form4Show = g.form4Show) (h2 : g'.form2Show = g.form2Show) : UiInv g' pc := by
  refine ⟨fun e => h.waiting ?_, fun e => h4 ▸ h.form4Show e, fun e => h2 ▸ h.form2Show e,
    fun e => ?_, h.notInvalid⟩
  · by_contra hn
    rw [hc (by simpa using hn)] at e
    cases e
  · obtain ⟨h1, h2⟩ := h.authorised e
    exact ⟨hc h1, hv h2⟩

/-! ## Steps -/

/-- What holds in every reachable state. -/
structure Inv (s : State) : Prop where
  gate : GateInv s.gate
  ui : UiInv s.gate s.ui
  caved : s.caved = if s.form2Show then 1 else 0

theorem inv_init (m : AddressSpace) : Inv (State.init m) := by
  refine ⟨⟨?_, ?_, ?_, ?_, ?_⟩, ⟨?_, ?_, ?_, ?_, ?_⟩, rfl⟩ <;>
    simp [State.init, State.gate, UiPc.waiting, UiPc.inForm4, UiPc.inForm1, UiPc.authorised]

variable {s s' : State}

theorem Inv.goto (h : Inv s) {t : Launcher} {pc : ThreadPc} (hg : GateInv (s.gate.goto t pc)) :
    Inv (s.goto t pc) :=
  ⟨hg, UiInv.mono h.ui id id rfl rfl, h.caved⟩

theorem threadStep_inv (h : Inv s) {t : Launcher} (hs : threadStep s t = some s') : Inv s' := by
  unfold threadStep at hs
  split at hs
  · rename_i ht
    cases hs
    obtain ⟨h4, h3, h1⟩ := h.gate.active (t := t) (by show s.thread t ≠ _; rw [ht]; simp)
      (by show s.thread t ≠ _; rw [ht]; simp)
    refine h.goto (h.gate.goto (by split <;> simp) (fun hv => ?_) (fun e hc => ?_) h3 fun e => ?_)
    · rw [if_pos (show s.isHWIDValid = true from hv)]
      rfl
    · rw [h4 e] at hc
      cases hc
    · obtain ⟨hc, hv, -⟩ := h1 e
      exact ⟨hc, hv, .inr (if_pos hv)⟩
  · rename_i ht
    cases hs
    exact h.goto (h.gate.goto_of_busy (gate_busy ht rfl) (by split <;> simp))
  · rename_i ht
    cases hs
    exact Inv.goto (s := { s with isHWIDValidated := true }) ⟨h.gate, h.ui, h.caved⟩
      (h.gate.goto_of_busy (gate_busy ht rfl) (by simp))
  · rename_i valid ht
    cases hs
    have hv := (h.gate.of_busy (gate_busy ht rfl)).1
    refine ⟨h.gate.storeValid ht, h.ui.mono id (fun e => ?_) rfl rfl, h.caved⟩
    rw [hv] at e
    cases e
  · rename_i ht
    cases hs
    exact ⟨h.gate.storeCompleted ht, h.ui.mono (fun _ => rfl) id rfl rfl, h.caved⟩
  · rename_i ht
    cases hs
    obtain ⟨h4, h3, h1⟩ := h.gate.active (t := t) (by show s.thread t ≠ _; rw [ht]; simp)
      (by show s.thread t ≠ _; rw [ht]; simp)
    refine h.goto (h.gate.goto (by simp) (fun _ => rfl) (fun e hc => ?_) h3 fun e => ?_)
    · rw [h4 e] at hc
      cases hc
    · have := (h1 e).2.2
      change s.thread t = _ at this
      rw [ht] at this
      cases this
  · cases hs

theorem UiPc.inForm1_eq_false {pc : UiPc} (h : pc.authorised = false) : pc.inForm1 = false := by
  simp only [UiPc.authorised, Bool.or_eq_false_iff] at h
  exact h.1.1

/-- A place in `Form4`. -/
theorem UiInv.inForm4 {pc : UiPc} (hw : g.completed = true ∨ pc.waiting = true)
    (h4 : g.form4Show = true) (ha : pc.authorised = false) (hn : pc ≠ .form1Invalid) :
    UiInv g pc := by
  refine ⟨fun e => ?_, fun _ => h4, fun e => ?_, fun e => ?_, hn⟩
  · rcases hw with hw | hw
    · rw [hw] at e
      cases e
    · exact hw
  · rw [UiPc.inForm1_eq_false ha] at e
    cases e
  · rw [ha] at e
    cases e

/-- A place outside `Form4`, and outside what takes an authorisation. -/
theorem UiInv.plain {pc : UiPc} (hw : g.completed = true ∨ pc.waiting = true)
    (h4 : pc.inForm4 = false) (ha : pc.authorised = false) (hn : pc ≠ .form1Invalid) :
    UiInv g pc := by
  refine ⟨fun e => ?_, fun e => ?_, fun e => ?_, fun e => ?_, hn⟩
  · rcases hw with hw | hw
    · rw [hw] at e
      cases e
    · exact hw
  · rw [h4] at e
    cases e
  · rw [UiPc.inForm1_eq_false ha] at e
    cases e
  · rw [ha] at e
    cases e

theorem UiInv.idle : UiInv g .idle := .plain (.inr rfl) rfl rfl (by simp)

theorem UiInv.dispatch : UiInv g .dispatch := .plain (.inr rfl) rfl rfl (by simp)

/-- A place that takes an authorisation. -/
theorem UiInv.of_authorised {pc : UiPc} (hc : g.completed = true) (hv : g.valid = true)
    (h4 : pc.inForm4 = false) (h1 : pc.inForm1 = true → g.form2Show = false)
    (hn : pc ≠ .form1Invalid) : UiInv g pc := by
  refine ⟨fun e => ?_, fun e => ?_, h1, fun _ => ⟨hc, hv⟩, hn⟩
  · rw [hc] at e
    cases e
  · rw [h4] at e
    cases e

/-- A render step that leaves the gate alone. -/
theorem Inv.move (h : Inv s) (hg : s'.gate = s.gate) (hc : s'.caved = s.caved)
    (hui : UiInv s.gate s'.ui) : Inv s' := by
  have h2 : s'.form2Show = s.form2Show := congrArg Gate.form2Show hg
  exact ⟨hg ▸ h.gate, hg ▸ hui, by rw [hc, h.caved, h2]⟩

variable {minia : Option GameModule} {caves : Cave → DWORD}

theorem UiInv.completed {pc : UiPc} (h : UiInv g pc) (hw : pc.waiting = false) :
    g.completed = true := by
  by_contra hc
  rw [h.waiting (by simpa using hc)] at hw
  cases hw

/-- The thread of `Form4` is launched before a validation is completed. -/
theorem GateInv.launch_form4 (h : GateInv g) : GateInv (g.launch .form4 .getComputerSid) := by
  refine h.launch fun hs => ?_
  refine h.goto (by simp) (fun hv => absurd hs (h.settled hv).1) (fun _ hc => ?_) nofun nofun
  rw [h.form4Thread hc] at hs
  cases hs

theorem GateInv.launch_form3 (h : GateInv g) (hc : g.completed = true) :
    GateInv (g.launch .form3 .loopTest) :=
  h.launch fun _ => h.goto (by simp) (fun _ => rfl) nofun (fun _ => hc) nofun

theorem GateInv.launch_form1 (h : GateInv g) (hc : g.completed = true) (hv : g.valid = true) :
    GateInv (g.launch .form1 .loopTest) :=
  h.launch fun _ => h.goto (by simp) (fun _ => rfl) nofun nofun fun _ => ⟨hc, hv, .inl rfl⟩

/-- `Form4` keeps the invariant. -/
theorem uiStep_inv_form4 (h : Inv s) (h4 : s.ui.inForm4 = true) (i : Input) :
    Inv (uiStep minia caves s i) := by
  have hui := h.ui
  have h4Show : s.form4Show = true := hui.form4Show h4
  cases hpc : s.ui with
  | form4 =>
    simp only [uiStep, hpc]
    exact ⟨h.gate.launch_form4, .inForm4 (.inr rfl) h4Show rfl (by simp), h.caved⟩
  | form4Completed =>
    simp only [uiStep, hpc]
    split
    · rename_i hc
      have hc' : s.isHWIDValidationCompleted = false := by simpa using hc
      have h2 : s.form2Show = false := by
        by_contra h2
        rw [Bool.not_eq_false] at h2
        have := (h.gate.shown (.inr h2)).1
        rw [show s.gate.completed = false from hc'] at this
        cases this
      refine ⟨h.gate.forms (fun _ => ⟨rfl, rfl⟩) (fun e => h.gate.shown ?_), .dispatch, ?_⟩
      · rcases e with e | e
        · exact .inl e
        · cases e
      · rw [h.caved, h2]
    · rename_i hc
      have hc' : s.isHWIDValidationCompleted = true := by simpa using hc
      exact h.move rfl rfl (.inForm4 (.inl hc') h4Show rfl (by simp))
  | form4CompletedAgain =>
    rw [hpc] at hui
    have hc : s.isHWIDValidationCompleted = true := hui.completed rfl
    simp only [uiStep, hpc, if_pos hc]
    exact h.move rfl rfl (.inForm4 (.inl hc) h4Show rfl (by simp))
  | form4Valid =>
    rw [hpc] at hui
    have hc : s.isHWIDValidationCompleted = true := hui.completed rfl
    have hpend : ∀ b c : Bool, s.gate.completed = false → b = false ∧ c = true := by
      intro b c e
      rw [show s.gate.completed = true from hc] at e
      cases e
    simp only [uiStep, hpc]
    split
    · rename_i hv
      exact ⟨h.gate.forms (hpend _ _) (fun _ => ⟨hc, hv⟩), .dispatch, h.caved⟩
    · exact ⟨h.gate.forms (hpend _ _) h.gate.shown, .dispatch, h.caved⟩
  | _ =>
    rw [hpc] at h4
    cases h4

/-- `Form1` keeps the invariant. -/
theorem uiStep_inv_form1 (h : Inv s) (h1 : s.ui.inForm1 = true) (i : Input) :
    Inv (uiStep minia caves s i) := by
  have hui := h.ui
  have h2 : s.form2Show = false := hui.form2Show h1
  obtain ⟨hc, hv⟩ := hui.authorised (by rw [UiPc.authorised, h1]; rfl)
  cases hpc : s.ui with
  | form1 =>
    simp only [uiStep, hpc]
    have hnext : UiInv s.gate (if i.successClicked then .form1Completed else .idle) := by
      split
      · exact .of_authorised hc hv rfl (fun _ => h2) (by simp)
      · exact .idle
    exact ⟨h.gate.launch_form1 hc hv, hnext.mono id id rfl rfl, h.caved⟩
  | form1Completed =>
    have hc' : s.isHWIDValidationCompleted = true := hc
    simp only [uiStep, hpc, if_pos hc']
    exact h.move rfl rfl (.of_authorised hc hv rfl (fun _ => h2) (by simp))
  | form1Valid =>
    have hv' : s.isHWIDValid = true := hv
    simp only [uiStep, hpc, if_pos hv']
    exact h.move rfl rfl (.of_authorised hc hv rfl (fun _ => h2) (by simp))
  | form1Success =>
    have hcaved := h.caved
    rw [h2] at hcaved
    simp only [uiStep, hpc]
    refine ⟨h.gate.forms (fun e => ?_) (fun _ => ⟨hc, hv⟩), .idle, ?_⟩
    · rw [hc] at e
      cases e
    · simp [hcaved]
  | _ =>
    rw [hpc] at h1
    cases h1

theorem UiPc.waiting_of_inForm3 {pc : UiPc} (h : pc.inForm3 = true) : pc.waiting = false := by
  cases pc <;> first | rfl | cases h

/-- `Form3` keeps the invariant: it is shown once a validation is completed. -/
theorem uiStep_inv_form3 (h : Inv s) (h3 : s.ui.inForm3 = true) (i : Input) :
    Inv (uiStep minia caves s i) := by
  have hui := h.ui
  have hc : s.gate.completed = true := hui.completed (UiPc.waiting_of_inForm3 h3)
  cases hpc : s.ui with
  | form3 =>
    simp only [uiStep, hpc]
    exact ⟨h.gate.launch_form3 hc, .plain (.inl hc) rfl rfl (by simp), h.caved⟩
  | form3Completed enabled =>
    simp only [uiStep, hpc]
    refine h.move rfl rfl ?_
    split <;> exact .plain (.inl hc) rfl rfl (by simp)
  | form3Valid enabled =>
    simp only [uiStep, hpc]
    exact h.move rfl rfl (.plain (.inl hc) rfl rfl (by simp))
  | form3Fields enabled =>
    simp only [uiStep, hpc]
    exact h.move rfl rfl (.plain (.inl hc) rfl rfl (by simp))
  | form3Send enabled =>
    have hnext : UiInv s.gate .form3Proceed := .plain (.inl hc) rfl rfl (by simp)
    simp only [uiStep, hpc]
    split <;> exact h.move rfl rfl hnext
  | form3Proceed =>
    simp only [uiStep, hpc]
    refine h.move rfl rfl ?_
    split
    · exact .plain (.inl hc) rfl rfl (by simp)
    · exact .idle
  | form3ProceedValid =>
    simp only [uiStep, hpc]
    refine h.move rfl rfl ?_
    split
    · rename_i hv
      exact .of_authorised hc hv rfl nofun (by simp)
    · exact .idle
  | form3ProceedButton =>
    rw [hpc] at hui
    obtain ⟨-, hv⟩ := hui.authorised rfl
    simp only [uiStep, hpc]
    split
    · refine ⟨h.gate.forms (fun e => ?_) (fun _ => ⟨hc, hv⟩), .idle, h.caved⟩
      rw [hc] at e
      cases e
    · exact h.move rfl rfl .idle
  | _ =>
    rw [hpc] at h3
    cases h3

/-- `Menu::Render` keeps the invariant, from each place where it can stand. -/
theorem uiStep_inv (h : Inv s) (i : Input) : Inv (uiStep minia caves s i) := by
  have hui := h.ui
  cases hpc : s.ui with
  | idle =>
    simp only [uiStep, hpc]
    split
    · exact h
    · split
      · exact h.move rfl rfl (hpc ▸ hui)
      · split
        · rename_i h4
          exact h.move rfl rfl (.inForm4 (.inr rfl) h4 rfl (by simp))
        · exact h.move rfl rfl .dispatch
  | form4 | form4Completed | form4CompletedAgain | form4Valid =>
    exact uiStep_inv_form4 h (by rw [hpc]; rfl) i
  | dispatch =>
    simp only [uiStep, hpc]
    refine h.move rfl rfl ?_
    split
    · rename_i h3
      exact .plain (.inl (h.gate.completed_of_form3Show h3)) rfl rfl (by simp)
    · split
      · rename_i h2
        obtain ⟨hc, hv⟩ := h.gate.shown (.inr h2)
        exact .of_authorised hc hv rfl nofun (by simp)
      · rename_i h2
        split
        · rename_i h1
          obtain ⟨hc, hv⟩ := h.gate.shown (.inl h1)
          exact .of_authorised hc hv rfl (fun _ => Bool.eq_false_iff.mpr h2) (by simp)
        · exact .idle
  | form3 | form3Completed | form3Valid | form3Fields | form3Send | form3Proceed
  | form3ProceedValid | form3ProceedButton =>
    exact uiStep_inv_form3 h (by rw [hpc]; rfl) i
  | form2 =>
    simp only [uiStep, hpc]
    split <;> exact h.move rfl rfl .idle
  | form1 | form1Completed | form1Valid | form1Success =>
    exact uiStep_inv_form1 h (by rw [hpc]; rfl) i
  | form1Invalid =>
    rw [hpc] at hui
    exact absurd rfl hui.notInvalid

/-- What each action needs and does. -/
theorem step_cases {a : Action} (h : step minia caves s a = some s') : s.exited = false ∧
    match a with
    | .thread t => threadStep s t = some s'
    | .getComputerSid t calls =>
      s.thread t = .getComputerSid ∧ s' = s.goto t (.testValidated (getComputerSid calls))
    | .download t calls => ∃ HWIDTarget pasteContent,
      s.thread t = .isHWIDPresent HWIDTarget ∧ calls.body = some pasteContent ∧
        s' = s.goto t
          (if isHWIDPresent pasteContent HWIDTarget then .setValidated else .storeValid false)
    | .badAlloc t => ∃ HWIDTarget, s.thread t = .isHWIDPresent HWIDTarget ∧ s' = s.goto t .finished
    | .ui i => s' = uiStep minia caves s i
    | .worker address => s' = { s with world := (Step.workerVisit address).exec s.world }
    | .game bytes => s' = { s with world := (Step.other bytes).exec s.world } := by
  unfold step at h
  split at h
  · cases h
  · rename_i hex
    refine ⟨by simpa using hex, ?_⟩
    cases a with
    | thread t => exact h
    | getComputerSid t calls =>
      simp only at h
      split at h
      · exact ⟨‹_›, (Option.some.inj h).symm⟩
      · cases h
    | download t calls =>
      simp only at h
      split at h
      · exact ⟨_, _, ‹_›, ‹_›, (Option.some.inj h).symm⟩
      · cases h
    | badAlloc t =>
      simp only at h
      split at h
      · exact ⟨_, ‹_›, (Option.some.inj h).symm⟩
      · cases h
    | ui i => exact (Option.some.inj h).symm
    | worker address => exact (Option.some.inj h).symm
    | game bytes => exact (Option.some.inj h).symm

theorem step_inv (h : Inv s) {a : Action} (hs : step minia caves s a = some s') : Inv s' := by
  obtain ⟨-, hs⟩ := step_cases hs
  cases a with
  | thread t => exact threadStep_inv h hs
  | getComputerSid t calls =>
    obtain ⟨ht, rfl⟩ := hs
    exact h.goto (h.gate.goto_of_busy (gate_busy ht rfl) (by simp))
  | download t calls =>
    obtain ⟨_, _, ht, -, rfl⟩ := hs
    exact h.goto (h.gate.goto_of_busy (gate_busy ht rfl) (by split <;> simp))
  | badAlloc t =>
    obtain ⟨_, ht, rfl⟩ := hs
    exact h.goto (h.gate.goto_of_busy (gate_busy ht rfl) (by simp))
  | ui i =>
    cases hs
    exact uiStep_inv h i
  | worker address =>
    cases hs
    exact h.move rfl rfl h.ui
  | game bytes =>
    cases hs
    exact h.move rfl rfl h.ui

theorem inv_run {ok : State → Action → Prop} {tr : List Action}
    (h : (machine minia caves).RunWhere ok tr s) : Inv s :=
  h.state_invariant (I := Inv) (fun _ hi => by obtain ⟨m, rfl⟩ := hi; exact inv_init m)
    fun _ _ _ h hs => step_inv h hs

/-! ## Monotonicity -/

theorem threadStep_mono (h : Inv s) {t : Launcher} (hs : threadStep s t = some s') :
    (s.isHWIDValid = true → s'.isHWIDValid = true) ∧
      (s.isHWIDValidationCompleted = true → s'.isHWIDValidationCompleted = true) := by
  unfold threadStep at hs
  split at hs <;> cases hs
  case h_4 valid ht =>
    have hv := (h.gate.of_busy (gate_busy ht rfl)).1
    refine ⟨fun e => ?_, id⟩
    rw [show s.isHWIDValid = false from hv] at e
    cases e
  case h_5 => exact ⟨id, fun _ => rfl⟩
  all_goals exact ⟨id, id⟩

variable (minia caves) in
theorem uiStep_atomics (s : State) (i : Input) :
    (uiStep minia caves s i).isHWIDValid = s.isHWIDValid ∧
      (uiStep minia caves s i).isHWIDValidationCompleted = s.isHWIDValidationCompleted := by
  unfold uiStep
  split <;> (try split) <;> (try split) <;> exact ⟨rfl, rfl⟩

/-- No step takes back that the user is valid or that the validation is completed. -/
theorem step_mono (h : Inv s) {a : Action} (hs : step minia caves s a = some s') :
    (s.isHWIDValid = true → s'.isHWIDValid = true) ∧
      (s.isHWIDValidationCompleted = true → s'.isHWIDValidationCompleted = true) := by
  obtain ⟨-, hs⟩ := step_cases hs
  cases a with
  | thread t => exact threadStep_mono h hs
  | getComputerSid t calls =>
    obtain ⟨-, rfl⟩ := hs
    exact ⟨id, id⟩
  | download t calls =>
    obtain ⟨_, _, -, -, rfl⟩ := hs
    exact ⟨id, id⟩
  | badAlloc t =>
    obtain ⟨_, -, rfl⟩ := hs
    exact ⟨id, id⟩
  | ui i =>
    cases hs
    obtain ⟨hv, hc⟩ := uiStep_atomics minia caves s i
    exact ⟨fun e => hv.trans e, fun e => hc.trans e⟩
  | worker address =>
    cases hs
    exact ⟨id, id⟩
  | game bytes =>
    cases hs
    exact ⟨id, id⟩

/-! ## Launches -/

/-- Where a form starts its thread. -/
def Launcher.start : Launcher → ThreadPc
  | .form4 => .getComputerSid
  | .form3 | .form1 => .loopTest

theorem State.launch_thread (s : State) (t u : Launcher) :
    (s.launch u u.start).thread t = s.thread t ∨
      s.thread t = .notStarted ∧ (s.launch u u.start).thread t = t.start := by
  unfold State.launch
  by_cases hn : s.thread u = .notStarted
  · by_cases ht : t = u
    · subst ht
      simp [hn]
    · simp [hn, Function.update_of_ne ht]
  · simp [hn]

variable (minia caves) in
/-- The render thread launches validation threads and leaves them alone otherwise. -/
theorem uiStep_thread (s : State) (i : Input) (t : Launcher) :
    (uiStep minia caves s i).thread t = s.thread t ∨
      s.thread t = .notStarted ∧ (uiStep minia caves s i).thread t = t.start := by
  cases hpc : s.ui with
  | form4 =>
    simp only [uiStep, hpc]
    exact s.launch_thread t .form4
  | form3 =>
    simp only [uiStep, hpc]
    exact s.launch_thread t .form3
  | form1 =>
    simp only [uiStep, hpc]
    exact s.launch_thread t .form1
  | _ =>
    left
    simp only [uiStep, hpc]
    repeat' split
    all_goals rfl

/-! ## Runs -/

/-- In every reachable state: the next step takes no authorisation back; `Form1` and `Form2` are
shown to a valid user only, so the branch `Invalid User` is never taken; and `Form4` is hidden only
after a validation. -/
theorem authorisation_consistent {tr : List Action} (h : (machine minia caves).Run tr s) :
    (∀ a s', step minia caves s a = some s' →
      (s.isHWIDValid = true → s'.isHWIDValid = true) ∧
      (s.isHWIDValidationCompleted = true → s'.isHWIDValidationCompleted = true)) ∧
    (s.form1Show = true ∨ s.form2Show = true →
      s.isHWIDValidationCompleted = true ∧ s.isHWIDValid = true) ∧
    s.ui ≠ .form1Invalid ∧
    (s.form4Show = false → s.isHWIDValidationCompleted = true) := by
  have hi := inv_run h
  exact ⟨fun a s' hs => step_mono hi hs, hi.gate.shown, hi.ui.notInvalid,
    hi.gate.completed_of_form4Show⟩

/-- No run executes `ScriptCaving` twice. -/
theorem caved_le_one {tr : List Action} (h : (machine minia caves).Run tr s) : s.caved ≤ 1 := by
  rw [(inv_run h).caved]
  split <;> omega

end

/-! ## A run to `Form2` -/

/-- A step of the render thread without a click. -/
def noInput : Input where
  now := 0
  sid := ⟨false, 0, false, none⟩
  username := []
  password := []
  sendClicked := false
  send := ⟨0, IDOK, ⟨false, false, false, fun _ => false, none⟩⟩
  proceedClicked := false
  closeClicked := false
  successClicked := false
  mainTab := false
  flags := fun _ => false

/-- The user waits for the thread of `Form4` and clicks `SUCCESS`. -/
def grantRun (sid : SidCalls) (http : HttpCalls) : List Action :=
  [.ui noInput, .ui noInput, .ui noInput, .getComputerSid .form4 sid, .thread .form4,
    .download .form4 http, .thread .form4, .thread .form4, .thread .form4, .ui noInput, .ui noInput,
    .ui noInput, .ui noInput, .ui { noInput with successClicked := true }, .ui noInput,
    .ui noInput, .ui noInput]

def sampleSid : SidCalls := ⟨true, 28, true, some (bytes "S-1-5-21-1004")⟩

def sampleDownload : HttpCalls :=
  ⟨true, true, true, true, true,
    [.available 15 (some (bytes "S-1-5-21-1004\r\n")), .available 0 (some [])]⟩

def noCaves : Cave → DWORD := fun _ => 0x10001000

/-- An activated SID leads to `Form2`. -/
theorem granted_run : ∃ s, (machine none noCaves).Run (grantRun sampleSid sampleDownload) s ∧
    s.caved = 1 ∧ s.form2Show = true :=
  Machine.exists_run ⟨⟨fun _ => 0, fun _ => 0x20⟩, rfl⟩ ⟨_, rfl, rfl, rfl⟩

theorem authorisation_consistent_granted : ∃ s,
    (machine none noCaves).Run (grantRun sampleSid sampleDownload) s ∧ s.form2Show = true ∧
      s.isHWIDValidationCompleted = true ∧ s.isHWIDValid = true := by
  obtain ⟨s, hr, -, h2⟩ := granted_run
  exact ⟨s, hr, h2, (authorisation_consistent hr).2.1 (.inr h2)⟩

theorem caved_le_one_granted : ∃ s,
    (machine none noCaves).Run (grantRun sampleSid sampleDownload) s ∧ s.caved = 1 ∧ s.caved ≤ 1 := by
  obtain ⟨s, hr, hc, -⟩ := granted_run
  exact ⟨s, hr, hc, caved_le_one hr⟩

/-! ## A run to `Form3` -/

/-- The thread of `Form4` does not find the SID in the download, and `Form3` is shown. -/
def refusedRun (sid : SidCalls) (http : HttpCalls) : List Action :=
  [.ui noInput, .ui noInput, .ui noInput, .getComputerSid .form4 sid, .thread .form4,
    .download .form4 http, .thread .form4, .thread .form4, .ui noInput, .ui noInput, .ui noInput,
    .ui noInput]

/-- A download without any SID. -/
def emptyDownload : HttpCalls := ⟨true, true, true, true, true, [.available 0 (some [])]⟩

end Bossran
