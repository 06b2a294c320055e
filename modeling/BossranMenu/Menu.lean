import BossranMenu.Lib.Machine
import BossranMenu.Authenticator
import BossranMenu.Form3
import BossranMenu.Scan.Session

/-!
# The menu: forms, frames and validation threads (`main.cpp`)

`State` is the process: the two atomics and `isHWIDValidated`, the validation threads, the flags
that tell which form is shown, what the forms keep, and the patcher. `step` is one atomic step of a
thread. A validation thread stops before every access to a shared variable and before every call
that leaves the process; the render thread before every read of an atomic, so any interleaving is a
run of `machine`. What the user, the network and Windows choose is part of the action.

* `threadStep`: `ValidateHWID` (launched by `Form4`) and `ValidateHWIDPeriodically` (launched by
  `Form3` and `Form1`).
* `uiStep`: `Menu::Render` with the forms it calls. Of `Form2` it has the check boxes and
  `BooleanFunct`.
* `State.exited`: the process has ended, by `exit` or because an exception met the `noexcept` of
  `Menu::Render`.
-/

namespace Bossran

open Transition

/-- The forms that launch a validation thread. -/
inductive Launcher where
  | form4 | form3 | form1
  deriving DecidableEq

/-- Where a validation thread stands. -/
inductive ThreadPc where
  | notStarted
  /-- `while (!isHWIDValid)` -/
  | loopTest
  /-- `HWIDTarget = GetComputerSid()` -/
  | getComputerSid
  /-- `if (isHWIDValidated)` -/
  | testValidated (HWIDTarget : List BYTE)
  /-- `IsHWIDPresent(dropboxURL, targetHWID)` -/
  | isHWIDPresent (HWIDTarget : List BYTE)
  /-- `isHWIDValidated = true` -/
  | setValidated
  /-- `isHWIDValid = ..` -/
  | storeValid (valid : Bool)
  /-- `isHWIDValidationCompleted = true` -/
  | storeCompleted
  | sleep
  | finished
  deriving DecidableEq

/-- Where the render thread stands. -/
inductive UiPc where
  /-- Between two frames. -/
  | idle
  | form4
  /-- `if (!isHWIDValidationCompleted)` -/
  | form4Completed
  /-- `else if (isHWIDValidationCompleted && ..` -/
  | form4CompletedAgain
  /-- `.. && isHWIDValid)` -/
  | form4Valid
  /-- `if (Form3Show) .. else if (Form2Show) .. else if (Form1Show)` -/
  | dispatch
  | form3
  /-- `if (isHWIDValidationCompleted)` -/
  | form3Completed (sendButtonEnabled : Bool)
  /-- `if (isHWIDValid)` -/
  | form3Valid (sendButtonEnabled : Bool)
  | form3Fields (sendButtonEnabled : Bool)
  | form3Send (sendButtonEnabled : Bool)
  /-- `if (isHWIDValidationCompleted && ..` -/
  | form3Proceed
  /-- `.. && isHWIDValid)` -/
  | form3ProceedValid
  | form3ProceedButton
  | form2
  | form1
  /-- `if (isHWIDValidationCompleted && ..` -/
  | form1Completed
  /-- `.. && isHWIDValid)` -/
  | form1Valid
  /-- The branch that calls `ScriptCaving`. -/
  | form1Success
  /-- The branch `Invalid User`. -/
  | form1Invalid
  deriving DecidableEq

structure State where
  isHWIDValid : Bool
  isHWIDValidationCompleted : Bool
  isHWIDValidated : Bool
  thread : Launcher → ThreadPc
  form1Show : Bool
  form2Show : Bool
  form3Show : Bool
  form4Show : Bool
  show_overlay : Bool
  /-- The static `threadStarted` of `Menu::Render`. -/
  threadStarted : Bool
  ui : UiPc
  form : FormState
  world : World
  exited : Bool
  /-- Ghost: how often `ScriptCaving` was executed. -/
  caved : Nat

/-- The process when the DLL is loaded, with the memory `m`. -/
def State.init (m : AddressSpace) : State where
  isHWIDValid := false
  isHWIDValidationCompleted := false
  isHWIDValidated := false
  thread := fun _ => .notStarted
  form1Show := false
  form2Show := false
  form3Show := false
  form4Show := true
  show_overlay := true
  threadStarted := false
  ui := .idle
  form := FormState.init
  world := World.init m
  exited := false
  caved := 0

/-- What the render thread meets at a step: the user's clicks and texts, and the outcomes of calls. -/
structure Input where
  now : ℚ
  /-- The calls of `AntiCheat::GetComputerSID`, which has the text of `GetComputerSid`. -/
  sid : SidCalls
  username : List BYTE
  password : List BYTE
  sendClicked : Bool
  send : SendInput
  proceedClicked : Bool
  closeClicked : Bool
  successClicked : Bool
  /-- `head_selected == HEAD_1` -/
  mainTab : Bool
  /-- The check boxes after the frame. -/
  flags : Flags

inductive Action where
  /-- A validation thread goes on. -/
  | thread (t : Launcher)
  /-- `GetComputerSid` of a validation thread returns. -/
  | getComputerSid (t : Launcher) (calls : SidCalls)
  /-- `DownloadContentFromUrl` of a validation thread returns. -/
  | download (t : Launcher) (calls : HttpCalls)
  /-- `DownloadContentFromUrl` of a validation thread throws `bad_alloc`. -/
  | badAlloc (t : Launcher)
  /-- The render thread goes on. -/
  | ui (i : Input)
  /-- The slot worker handles one address. -/
  | worker (address : DWORD)
  /-- The game writes its memory. -/
  | game (bytes : DWORD → BYTE)

namespace State

/-- A validation thread moves on. -/
def goto (s : State) (t : Launcher) (pc : ThreadPc) : State :=
  { s with thread := Function.update s.thread t pc }

/-- `static std::future<void> validationThread = std::async(..)`: launched at the first pass. -/
def launch (s : State) (t : Launcher) (start : ThreadPc) : State :=
  { s with thread := if s.thread t = .notStarted then Function.update s.thread t start else s.thread }

end State

/-- One step of a validation thread that needs no outside call. -/
def threadStep (s : State) (t : Launcher) : Option State :=
  match s.thread t with
  | .loopTest => some (s.goto t (if s.isHWIDValid then .finished else .getComputerSid))
  | .testValidated HWIDTarget =>
    some (s.goto t (if s.isHWIDValidated then .storeValid true else .isHWIDPresent HWIDTarget))
  | .setValidated => some ({ s with isHWIDValidated := true }.goto t (.storeValid true))
  | .storeValid valid => some ({ s with isHWIDValid := valid }.goto t .storeCompleted)
  | .storeCompleted =>
    some ({ s with isHWIDValidationCompleted := true }.goto t
      (if t = Launcher.form4 then .finished else .sleep))
  | .sleep => some (s.goto t .loopTest)
  | _ => none

section

variable (minia : Option GameModule) (caves : Cave → DWORD)

/-- `Menu::Render`, from one read of an atomic to the next. -/
def uiStep (s : State) (i : Input) : State :=
  match s.ui with
  | .idle =>
    if !s.show_overlay then s
    else if !s.threadStarted then { s with threadStarted := true }
    else { s with ui := if s.form4Show then .form4 else .dispatch }
  | .form4 =>
    let s := s.launch .form4 .getComputerSid
    { s with ui := .form4Completed }
  | .form4Completed =>
    if !s.isHWIDValidationCompleted then
      { s with form4Show := true, form3Show := false, form2Show := false, ui := .dispatch }
    else { s with ui := .form4CompletedAgain }
  | .form4CompletedAgain =>
    if s.isHWIDValidationCompleted then { s with ui := .form4Valid }
    else { s with form3Show := true, form4Show := false, ui := .dispatch }
  | .form4Valid =>
    if s.isHWIDValid then
      { s with form1Show := true, form3Show := false, form4Show := false, ui := .dispatch }
    else { s with form3Show := true, form4Show := false, ui := .dispatch }
  | .dispatch =>
    { s with
      ui := if s.form3Show then .form3 else if s.form2Show then .form2
        else if s.form1Show then .form1 else .idle }
  | .form3 =>
    let s := s.launch .form3 .loopTest
    let sendButtonEnabled := s.form.username.length > 0 && s.form.password.length > 0
    { s with
      form := (s.form.renderNotifications i.now).initHwid (getComputerSid i.sid)
      ui := .form3Completed sendButtonEnabled }
  | .form3Completed enabled =>
    { s with ui := if s.isHWIDValidationCompleted then .form3Valid enabled else .form3Fields enabled }
  | .form3Valid enabled =>
    { s with form := s.form.showStatus s.isHWIDValid i.now, ui := .form3Fields enabled }
  | .form3Fields enabled =>
    { s with form := { s.form with username := i.username, password := i.password }
             ui := .form3Send enabled }
  | .form3Send enabled =>
    if i.sendClicked then
      let r := form3Send s.form enabled i.send
      { s with form := r.form, exited := r.ending ≠ .returned, ui := .form3Proceed }
    else { s with ui := .form3Proceed }
  | .form3Proceed => { s with ui := if s.isHWIDValidationCompleted then .form3ProceedValid else .idle }
  | .form3ProceedValid => { s with ui := if s.isHWIDValid then .form3ProceedButton else .idle }
  | .form3ProceedButton =>
    if i.proceedClicked then
      { s with form3Show := false, form1Show := true, form4Show := false, ui := .idle }
    else { s with ui := .idle }
  | .form2 =>
    if i.mainTab then
      { s with
        world := { booleanFunct s.world with flags := i.flags }
        form := s.form.renderNotifications i.now
        ui := .idle }
    else { s with ui := .idle }
  | .form1 =>
    let s := s.launch .form1 .loopTest
    { s with
      show_overlay := if i.closeClicked then false else s.show_overlay
      form := s.form.renderNotifications i.now
      ui := if i.successClicked then .form1Completed else .idle }
  | .form1Completed =>
    { s with ui := if s.isHWIDValidationCompleted then .form1Valid else .form1Invalid }
  | .form1Valid => { s with ui := if s.isHWIDValid then .form1Success else .form1Invalid }
  | .form1Success =>
    { s with world := scriptCaving minia caves s.world, caved := s.caved + 1, form2Show := true
             ui := .idle }
  | .form1Invalid =>
    { s with
      form := s.form.showNotification "A" "Invalid User"
        "Copy your HWID and send it to the developer!" 3000 white i.now
      ui := .idle }

/-- One step of the process, `none` if it cannot be taken. -/
def step (s : State) (a : Action) : Option State :=
  if s.exited then none
  else
    match a with
    | .thread t => threadStep s t
    | .getComputerSid t calls =>
      if s.thread t = .getComputerSid then
        some (s.goto t (.testValidated (getComputerSid calls)))
      else none
    | .download t calls =>
      match s.thread t, calls.body with
      | .isHWIDPresent HWIDTarget, some pasteContent =>
        some (s.goto t
          (if isHWIDPresent pasteContent HWIDTarget then .setValidated else .storeValid false))
      | _, _ => none
    | .badAlloc t =>
      match s.thread t with
      | .isHWIDPresent _ => some (s.goto t .finished)
      | _ => none
    | .ui i => some (uiStep minia caves s i)
    | .worker address => some { s with world := (Step.workerVisit address).exec s.world }
    | .game bytes => some { s with world := (Step.other bytes).exec s.world }

/-- The process, started with any memory. -/
def machine : Machine State Action where
  init s := ∃ m, s = State.init m
  step := step minia caves

end

end Bossran
