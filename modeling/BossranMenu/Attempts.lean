import BossranMenu.Gate

/-!
# The limit on the activation requests (`Form3` in `main.cpp`)

`clickCounter` counts the clicks that pass the input checks. At `maxClicks` a message box announces
the end of the application, but only the answer `IDOK` ends it.

* `form3Send_requests`, `form3Send_exits`: which clicks call `SendLoginRequest`.
* `requestMachine`: the process with the number of its requests; it has the same runs.
* `requests_le_iff`: a run sends at most `maxClicks - 1` requests exactly if every message box at
  the limit is answered `IDOK`. A rejected click neither sends nor counts.
-/

namespace Bossran

open Handles Transition

/-- The handler called `SendLoginRequest`: nothing else in it throws or opens a handle. -/
def SendResult.requested (r : SendResult) : Bool :=
  !r.events.isEmpty || match r.ending with
    | .threw _ => true
    | _ => false

/-- The checks of the inputs reject a click. -/
def Rejected (s : FormState) (sendButtonEnabled : Bool) : Prop :=
  sendButtonEnabled = false ∨ isValidUsername s.username = false ∨
    isValidPassword s.password = false

/-- `SendLoginRequest` throws or opens a handle. -/
theorem sendLoginRequest_requested (c : InetCalls) (username password hwid : List BYTE) :
    (∃ what, (sendLoginRequest c username password hwid).exec.1 = .error what) ∨
      (sendLoginRequest c username password hwid).exec.2 ≠ [] := by
  obtain ⟨opens, connects, requests, sends, status⟩ := c
  generalize hd : postData username password hwid = data
  cases opens with
  | false => exact .inl ⟨_, rfl⟩
  | true =>
    refine .inr ?_
    cases connects <;> cases requests <;> cases hs : sends data <;> cases status <;>
      simp [sendLoginRequest, Tracked.exec, hd, hs]

section

variable {s : FormState} {enabled : Bool}

/-- A rejected click changes nothing but the notifications. -/
theorem form3Send_rejected (h : Rejected s enabled) (i : SendInput) :
    (form3Send s enabled i).requested = false ∧
      (form3Send s enabled i).form.clickCounter = s.clickCounter ∧
      (form3Send s enabled i).ending = .returned := by
  unfold form3Send
  cases enabled with
  | false => exact ⟨rfl, rfl, rfl⟩
  | true =>
    cases hu : isValidUsername s.username with
    | false => exact ⟨rfl, rfl, rfl⟩
    | true =>
      cases hp : isValidPassword s.password with
      | false => exact ⟨rfl, rfl, rfl⟩
      | true => simp [Rejected, hu, hp] at h

/-- The message box at the limit is answered `IDOK`: the application ends. -/
theorem form3Send_exits (h : ¬ Rejected s enabled) {i : SendInput}
    (hlimit : maxClicks ≤ s.clickCounter + 1) (hok : i.messageBoxW = IDOK) :
    (form3Send s enabled i).requested = false ∧ (form3Send s enabled i).ending = .exited (-1) := by
  simp only [Rejected, not_or, Bool.not_eq_false] at h
  simp [form3Send, h, hlimit, hok, SendResult.requested]

/-- Otherwise a click that is not rejected sends a request and counts. -/
theorem form3Send_requests (h : ¬ Rejected s enabled) {i : SendInput}
    (hlimit : maxClicks ≤ s.clickCounter + 1 → i.messageBoxW ≠ IDOK) :
    (form3Send s enabled i).requested = true ∧
      (form3Send s enabled i).form.clickCounter = s.clickCounter + 1 := by
  simp only [Rejected, not_or, Bool.not_eq_false] at h
  have hgo : ¬ (s.clickCounter + 1 ≥ maxClicks ∧ i.messageBoxW = IDOK) := fun h => hlimit h.1 h.2
  have hreq := sendLoginRequest_requested i.calls s.username s.password s.hwid
  simp only [form3Send, h, Bool.not_true, Bool.false_eq_true, if_false, Bool.and_eq_true,
    decide_eq_true_eq, beq_iff_eq, if_neg hgo]
  generalize (sendLoginRequest i.calls s.username s.password s.hwid).exec = r at hreq
  obtain ⟨_ | code, events⟩ := r
  · exact ⟨by simp [SendResult.requested], rfl⟩
  · have hev : events ≠ [] := by simpa using hreq
    by_cases h204 : code = 204
    · simp [h204, SendResult.requested, hev, FormState.saveHWID, FormState.showNotification]
    · simp [h204, SendResult.requested, hev, FormState.showNotification]

end

/-! ## The clicks of a run -/

/-- The step is a click on the Send button. -/
structure Click (s : State) (a : Action) (sendButtonEnabled : Bool) (i : Input) : Prop where
  action : a = .ui i
  ui : s.ui = .form3Send sendButtonEnabled
  clicked : i.sendClicked = true

/-- How many requests a step sends. -/
def requests (s : State) (a : Action) : Nat :=
  match s.ui, a with
  | .form3Send enabled, .ui i =>
    if i.sendClicked && (form3Send s.form enabled i.send).requested then 1 else 0
  | _, _ => 0

theorem Click.requests {s : State} {a : Action} {enabled : Bool} {i : Input}
    (h : Click s a enabled i) :
    requests s a = if (form3Send s.form enabled i.send).requested then 1 else 0 := by
  obtain ⟨rfl, hui, hc⟩ := h
  simp [Bossran.requests, hui, hc]

section

variable {minia : Option GameModule} {caves : Cave → DWORD} {s s' : State}

theorem threadStep_form {t : Launcher} (h : threadStep s t = some s') :
    s'.form = s.form ∧ s'.exited = s.exited := by
  unfold threadStep at h
  split at h <;> cases h <;> exact ⟨rfl, rfl⟩

theorem FormState.initHwid_clickCounter (s : FormState) (computerSID : List BYTE) :
    (s.initHwid computerSID).clickCounter = s.clickCounter := by
  unfold FormState.initHwid
  split <;> rfl

theorem FormState.showStatus_clickCounter (s : FormState) (isHWIDValid : Bool) (now : ℚ) :
    (s.showStatus isHWIDValid now).clickCounter = s.clickCounter := by
  cases isHWIDValid <;> cases ha : s.activated <;> cases hd : s.deactivated <;>
    simp [FormState.showStatus, ha, hd, FormState.showNotification]

variable (minia caves) in
/-- A step of the render thread outside the handler of the Send button counts no click. -/
theorem uiStep_clickCounter (s : State) (i : Input)
    (h : ∀ enabled, ¬ Click s (.ui i) enabled i) :
    (uiStep minia caves s i).form.clickCounter = s.form.clickCounter ∧
      (uiStep minia caves s i).exited = s.exited := by
  cases hui : s.ui with
  | form3Send enabled =>
    have hc : i.sendClicked = false := by
      rw [← Bool.not_eq_true]
      exact fun hc => h enabled ⟨rfl, hui, hc⟩
    simp [uiStep, hui, hc]
  | form3 =>
    simp only [uiStep, hui]
    exact ⟨FormState.initHwid_clickCounter .., rfl⟩
  | form3Valid enabled =>
    simp only [uiStep, hui, and_true]
    exact FormState.showStatus_clickCounter ..
  | _ => constructor <;> simp only [uiStep, hui] <;> (repeat' split) <;> rfl

theorem requests_eq_zero {a : Action} (h : ∀ enabled i, ¬ Click s a enabled i) :
    requests s a = 0 := by
  unfold requests
  split
  · rename_i enabled i hui
    have hc : i.sendClicked = false := by
      rw [← Bool.not_eq_true]
      exact fun hc => h enabled i ⟨rfl, hui, hc⟩
    simp [hc]
  · rfl

/-- A step is a click, or neither sends a request nor counts. -/
theorem step_click {a : Action} (h : step minia caves s a = some s') : s.exited = false ∧
    ((∃ enabled i, Click s a enabled i ∧ s'.form = (form3Send s.form enabled i.send).form ∧
        s'.exited = decide ((form3Send s.form enabled i.send).ending ≠ .returned)) ∨
      requests s a = 0 ∧ s'.form.clickCounter = s.form.clickCounter ∧ s'.exited = false) := by
  obtain ⟨hex, h⟩ := step_cases h
  refine ⟨hex, ?_⟩
  by_cases hc : ∃ enabled i, Click s a enabled i
  · obtain ⟨enabled, i, hc⟩ := hc
    obtain rfl := hc.action
    cases h
    refine .inl ⟨enabled, i, hc, ?_⟩
    simp [uiStep, hc.ui, hc.clicked]
  · push Not at hc
    refine .inr ⟨requests_eq_zero hc, ?_⟩
    cases a with
    | ui i =>
      cases h
      obtain ⟨hcount, hexit⟩ := uiStep_clickCounter minia caves s i fun enabled => hc enabled i
      exact ⟨hcount, hexit.trans hex⟩
    | thread t =>
      obtain ⟨hform, hexit⟩ := threadStep_form h
      exact ⟨by rw [hform], hexit.trans hex⟩
    | getComputerSid t calls =>
      obtain ⟨-, rfl⟩ := h
      exact ⟨rfl, hex⟩
    | download t calls =>
      obtain ⟨_, _, -, -, rfl⟩ := h
      exact ⟨rfl, hex⟩
    | badAlloc t =>
      obtain ⟨_, -, rfl⟩ := h
      exact ⟨rfl, hex⟩
    | worker address =>
      cases h
      exact ⟨rfl, hex⟩
    | game bytes =>
      cases h
      exact ⟨rfl, hex⟩

/-! ## The requests of a run -/

variable (minia caves) in
/-- The process with the number of its `SendLoginRequest` calls. -/
def requestMachine : Machine (State × Nat) Action := (machine minia caves).counting requests

/-- Every run of the process has a number of requests. -/
theorem requestMachine_run_iff {tr : List Action} :
    (machine minia caves).Run tr s ↔ ∃ n, (requestMachine minia caves).Run tr (s, n) :=
  ⟨Machine.RunWhere.counting, fun ⟨n, h⟩ =>
    @Machine.RunWhere.of_counting _ _ _ (fun _ _ => True) requests tr (s, n) h⟩

/-- A message box at the limit is answered `IDOK`. -/
def AnsweredOk (s : State) (a : Action) : Prop :=
  ∀ enabled i, Click s a enabled i → ¬ Rejected s.form enabled →
    maxClicks ≤ s.form.clickCounter + 1 → i.send.messageBoxW = IDOK

/-- The requests stay below the limit, and while the process runs every counted click sent one. -/
structure Bounded (p : State × Nat) : Prop where
  le : (p.2 : Int) ≤ maxClicks - 1
  eq : p.1.exited = false → (p.2 : Int) = p.1.form.clickCounter

theorem bounded_step {n n' : Nat} (h : Bounded (s, n)) {a : Action} (hok : AnsweredOk s a)
    (hs : (requestMachine minia caves).step (s, n) a = some (s', n')) : Bounded (s', n') := by
  obtain ⟨hstep, rfl⟩ := Machine.counting_step.mp hs
  obtain ⟨hex, hcases⟩ := step_click hstep
  have hle := h.le
  have heq := h.eq hex
  simp only at hle heq
  rcases hcases with ⟨enabled, i, hc, hform, hexit⟩ | ⟨hreq, hcount, -⟩
  · rw [hc.requests]
    by_cases hr : Rejected s.form enabled
    · obtain ⟨hreq, hcount, -⟩ := form3Send_rejected hr i.send
      rw [hreq]
      exact ⟨hle, fun _ => by rw [hform, hcount]; exact heq⟩
    · by_cases hlimit : maxClicks ≤ s.form.clickCounter + 1
      · obtain ⟨hreq, hend⟩ := form3Send_exits hr hlimit (hok enabled i hc hr hlimit)
        rw [hreq]
        exact ⟨hle, fun he => by simp [hexit, hend] at he⟩
      · obtain ⟨hreq, hcount⟩ := form3Send_requests hr (i := i.send) fun h => absurd h hlimit
        rw [hreq, if_pos rfl]
        refine ⟨?_, fun _ => ?_⟩
        · simp only [Nat.cast_add, Nat.cast_one]
          omega
        · rw [hform, hcount]
          simp only [Nat.cast_add, Nat.cast_one, heq]
  · rw [hreq]
    exact ⟨hle, fun _ => by rw [hcount]; exact heq⟩

theorem bounded_run {tr : List Action} {p : State × Nat}
    (h : (requestMachine minia caves).RunWhere (fun p => AnsweredOk p.1) tr p) : Bounded p := by
  induction h with
  | init hi =>
    obtain ⟨⟨m, hm⟩, h0⟩ := hi
    exact ⟨by rw [h0]; decide, fun _ => by rw [h0, hm]; rfl⟩
  | step a _ hok hs ih => exact bounded_step ih hok hs

/-- A click at the limit whose message box is not answered `IDOK` sends a request. -/
theorem requests_of_not_answeredOk {a : Action} (h : ¬ AnsweredOk s a) :
    requests s a = 1 ∧ maxClicks ≤ s.form.clickCounter + 1 := by
  unfold AnsweredOk at h
  push Not at h
  obtain ⟨enabled, i, hc, hr, hlimit, hbox⟩ := h
  obtain ⟨hreq, -⟩ := form3Send_requests hr (i := i.send) fun _ => hbox
  rw [hc.requests, hreq]
  exact ⟨rfl, hlimit⟩

/-- A run below the limit answered every message box `IDOK`. -/
theorem answeredOk_of_le {tr : List Action} {p : State × Nat}
    (h : (requestMachine minia caves).Run tr p) (hle : (p.2 : Int) ≤ maxClicks - 1) :
    (requestMachine minia caves).RunWhere (fun p => AnsweredOk p.1) tr p := by
  induction h with
  | init hi => exact .init hi
  | step a _ _ hs ih =>
    rename_i p p' _
    obtain ⟨hstep, hn⟩ := Machine.counting_step.mp hs
    have hrun := ih (by omega)
    refine .step a hrun ?_ hs
    by_contra hno
    obtain ⟨hreq, hlimit⟩ := requests_of_not_answeredOk hno
    have heq := (bounded_run hrun).eq (step_click hstep).1
    omega

/-- A run sends at most `maxClicks - 1` requests exactly if every message box at the limit is
answered `IDOK`. A rejected click neither sends a request nor counts. -/
theorem requests_le_iff {tr : List Action} {n : Nat}
    (h : (requestMachine minia caves).Run tr (s, n)) :
    ((n : Int) ≤ maxClicks - 1 ↔
      (requestMachine minia caves).RunWhere (fun p => AnsweredOk p.1) tr (s, n)) ∧
    ∀ (form : FormState) (enabled : Bool) (i : SendInput), Rejected form enabled →
      (form3Send form enabled i).requested = false ∧
        (form3Send form enabled i).form.clickCounter = form.clickCounter := by
  refine ⟨⟨answeredOk_of_le h, fun hr => (bounded_run hr).le⟩, fun form enabled i hr => ?_⟩
  obtain ⟨hreq, hcount, -⟩ := form3Send_rejected hr i
  exact ⟨hreq, hcount⟩

end

/-! ## Two clicks -/

/-- A frame of `Form3`, from the handler's call on: the user types, then clicks or not. -/
def form3Frame (sendClicked : Bool) (messageBoxW : Int) : List Action :=
  let typed := { noInput with username := sampleForm.username, password := sampleForm.password }
  [.ui noInput, .ui noInput, .ui noInput, .ui typed,
    .ui { typed with sendClicked := sendClicked, send := ⟨0, messageBoxW, sampleNetwork⟩ },
    .ui noInput, .ui noInput, .ui noInput, .ui noInput]

/-- The user is not activated, types the names and clicks once for each answer to a message box. -/
def clicks (answers : List Int) : List Action :=
  refusedRun sampleSid emptyDownload ++ form3Frame false IDOK ++
    answers.flatMap (form3Frame true)

/-- One click sends one request. -/
theorem requests_le_iff_oneClick : ∃ s, (requestMachine none noCaves).Run (clicks [IDOK]) (s, 1) ∧
    (requestMachine none noCaves).RunWhere (fun p => AnsweredOk p.1) (clicks [IDOK]) (s, 1) := by
  have h : ∃ s, (requestMachine none noCaves).execWhere (fun _ _ => True)
      (State.init ⟨fun _ => 0, fun _ => 0x20⟩, 0) (clicks [IDOK]) = some (s, 1) := ⟨_, rfl⟩
  obtain ⟨s, hs⟩ := h
  have hrun : (requestMachine none noCaves).Run (clicks [IDOK]) (s, 1) :=
    Machine.execWhere_run ⟨⟨_, rfl⟩, rfl⟩ hs
  exact ⟨s, hrun, (requests_le_iff hrun).1.mp (by decide)⟩

/-- A message box that fails (`MessageBoxW` returns 0) lets the second request go out. -/
theorem not_requests_le_boxFails :
    ∃ s, (requestMachine none noCaves).Run (clicks [IDOK, 0]) (s, 2) ∧
      ¬ ((2 : Nat) : Int) ≤ maxClicks - 1 := by
  have h : ∃ s, (requestMachine none noCaves).execWhere (fun _ _ => True)
      (State.init ⟨fun _ => 0, fun _ => 0x20⟩, 0) (clicks [IDOK, 0]) = some (s, 2) := ⟨_, rfl⟩
  obtain ⟨s, hs⟩ := h
  exact ⟨s, Machine.execWhere_run ⟨⟨_, rfl⟩, rfl⟩ hs, by decide⟩

end Bossran
