import BossranMenu.Contact
import BossranMenu.Lib.Regex
import BossranMenu.Notification

/-!
# The activation form (`Form3` in `main.cpp`)

`FormState` is what the forms keep between frames, apart from the flags that tell which form is
shown. `form3Send` is the handler of the Send button: the checks of the inputs, the limit on the
attempts, the request, and the notification that tells how it went.

* `isValidUsername_alnum`: an accepted user name is made of letters and digits.
* `form3Send_accepted`: a click with accepted inputs below the limit sends the request.
* `finishesNormally_iff`: it ends with the notification meant for it exactly if all five WinINet
  calls succeed; `SendLoginRequest` throws otherwise, and nobody catches.
-/

namespace Bossran

open Handles

/-! ## The input checks -/

def isDigit (c : BYTE) : Bool := 0x30 ≤ c && c ≤ 0x39

def isUpper (c : BYTE) : Bool := 0x41 ≤ c && c ≤ 0x5A

def isLower (c : BYTE) : Bool := 0x61 ≤ c && c ≤ 0x7A

/-- `[a-zA-Z0-9]` -/
def isAlnum (c : BYTE) : Bool := isLower c || isUpper c || isDigit c

/-- `\w` -/
def isWord (c : BYTE) : Bool := isAlnum c || c == 0x5F

def tolower (c : BYTE) : BYTE := if isUpper c then c + 0x20 else c

/-- `HasTooManyUniqueChars`. -/
def hasTooManyUniqueChars (str : List BYTE) (maxUniqueChars : Nat) : Bool :=
  maxUniqueChars < str.eraseDups.length

/-- `^(?!\d+$)[a-zA-Z0-9]+$` -/
def validUsernameRegex : Ecma.Regex BYTE :=
  .seq .bol <| .seq (.notAhead (.seq (.plus (.set isDigit)) .eol)) <|
    .seq (.plus (.set isAlnum)) .eol

/-- `(\w{2,})\1+` -/
def repeatingPatternRegex : Ecma.Regex BYTE :=
  .seq (.group 1 (.twoOrMore (.set isWord))) (.plus (.backref 1))

def gibberishWords : List String := ["qweqwe", "123123", "asdfghjkkl", "qwertyuiop"]

/-- `IsValidUsername`. -/
def isValidUsername (username : List BYTE) : Bool :=
  if username.length < 3 || username.length > 20 then false
  else if !validUsernameRegex.fullMatch username then false
  else
    let lowerUsername := username.map tolower
    if (gibberishWords.map bytes).contains lowerUsername then false
    else if repeatingPatternRegex.search lowerUsername then false
    else if hasTooManyUniqueChars lowerUsername 10 then false
    else true

/-- `IsValidPassword`. The format that its comment describes is not looked at. -/
def isValidPassword (password : List BYTE) : Bool :=
  if password.length < 6 || password.length > 20 then false
  else if hasTooManyUniqueChars password 15 then false
  else true

/-- What the regular expression for user names accepts: letters and digits, not only digits. -/
theorem fullMatch_validUsernameRegex {u : List BYTE} :
    validUsernameRegex.fullMatch u = true ↔
      u ≠ [] ∧ (∀ c ∈ u, isAlnum c = true) ∧ ¬ ∀ c ∈ u, isDigit c = true := by
  have hdigits : Ecma.run u (.seq (.plus (.set isDigit)) .eol) ⟨0, []⟩ = [] ↔
      ¬ (u ≠ [] ∧ ∀ c ∈ u, isDigit c = true) := by
    rw [List.eq_nil_iff_forall_not_mem]
    simp only [Ecma.mem_run_line]
    exact ⟨fun h hd => h _ ⟨hd.1, hd.2, rfl⟩, fun h _ hd => h ⟨hd.1, hd.2.1⟩⟩
  have hmem : ∀ st, st ∈ Ecma.run u validUsernameRegex ⟨0, []⟩ ↔
      ¬ (u ≠ [] ∧ ∀ c ∈ u, isDigit c = true) ∧
        u ≠ [] ∧ (∀ c ∈ u, isAlnum c = true) ∧ st = ⟨u.length, []⟩ := by
    intro st
    rw [validUsernameRegex, Ecma.mem_run_seq, ← hdigits]
    constructor
    · rintro ⟨_, h₁, h⟩
      obtain ⟨-, rfl⟩ := Ecma.mem_run_bol.mp h₁
      obtain ⟨_, h₂, h⟩ := Ecma.mem_run_seq.mp h
      obtain ⟨hd, rfl⟩ := Ecma.mem_run_notAhead.mp h₂
      exact ⟨hd, Ecma.mem_run_line.mp h⟩
    · rintro ⟨hd, h⟩
      exact ⟨_, Ecma.mem_run_bol.mpr ⟨rfl, rfl⟩, Ecma.mem_run_seq.mpr
        ⟨_, Ecma.mem_run_notAhead.mpr ⟨hd, rfl⟩, Ecma.mem_run_line.mpr h⟩⟩
  unfold Ecma.Regex.fullMatch
  rw [List.any_eq_true]
  constructor
  · rintro ⟨st, hst, -⟩
    obtain ⟨hd, hne, ha, -⟩ := (hmem st).mp hst
    exact ⟨hne, ha, fun h => hd ⟨hne, h⟩⟩
  · rintro ⟨hne, ha, hd⟩
    exact ⟨⟨u.length, []⟩, (hmem _).mpr ⟨fun h => hd h.2, hne, ha, rfl⟩, by simp⟩

theorem isValidUsername_alnum {u : List BYTE} (h : isValidUsername u = true) :
    ∀ c ∈ u, isAlnum c = true := by
  unfold isValidUsername at h
  split at h
  · cases h
  · split at h
    · cases h
    · rename_i hm
      exact (fullMatch_validUsernameRegex.mp (by simpa using hm)).2.1

/-! ## The Send button -/

structure FormState where
  username : List BYTE
  password : List BYTE
  hwid : List BYTE
  hwid_initialized : Bool
  activated : Bool
  deactivated : Bool
  clickCounter : Int
  notifications : List Notification
  /-- The lines of `sent_hwids.txt`. -/
  sentHwids : List (List BYTE)

def FormState.init : FormState where
  username := []
  password := []
  hwid := []
  hwid_initialized := false
  activated := false
  deactivated := false
  clickCounter := 0
  notifications := []
  sentHwids := []

/-- `ShowNotification`. -/
def FormState.showNotification (s : FormState) (icon information message : String)
    (duration_ms : Int) (color : BitVec 32) (now : ℚ) : FormState :=
  { s with
    notifications := s.notifications ++
      [notification icon information message duration_ms color now] }

/-- `RenderNotifications`. -/
def FormState.renderNotifications (s : FormState) (now : ℚ) : FormState :=
  { s with notifications := (Bossran.renderNotifications now 0 s.notifications).1 }

/-- The first pass of `Form3` fills the HWID field (`strncpy_s` into a buffer of 128 bytes). -/
def FormState.initHwid (s : FormState) (computerSID : List BYTE) : FormState :=
  if !s.hwid_initialized then { s with hwid := computerSID.take 127, hwid_initialized := true } else s

/-- The status line of `Form3` after a validation: a change is notified once. -/
def FormState.showStatus (s : FormState) (isHWIDValid : Bool) (now : ℚ) : FormState :=
  if isHWIDValid then
    if !s.activated then
      { s.showNotification "A" "HWID Valid!" "HWID activated! Click Proceed to continue." 3000 white now
        with activated := true }
    else s
  else
    let s := { s with activated := false }
    if !s.deactivated then
      { s.showNotification "A" "HWID Invalid!" "HWID is not Valid or Removed by the Developer." 3000
          white now
        with deactivated := true }
    else s

/-- `SaveHWID`. -/
def FormState.saveHWID (s : FormState) (hwid : List BYTE) : FormState :=
  { s with sentHwids := s.sentHwids ++ [hwid] }

def maxClicks : Int := 2

def IDOK : Int := 1

/-- What the handler of a click meets: the time, the answer to the message box, and the network. -/
structure SendInput where
  now : ℚ
  messageBoxW : Int
  calls : InetCalls

/-- How a handler ends. -/
inductive Ending where
  | returned
  | threw (what : String)
  | exited (code : Int)
  deriving DecidableEq

structure SendResult where
  form : FormState
  events : List (Event Internet)
  ending : Ending

/-- The handler of the Send button. -/
def form3Send (s : FormState) (sendButtonEnabled : Bool) (i : SendInput) : SendResult :=
  let error (message : String) : SendResult :=
    ⟨s.showNotification "A" "Error" message 3000 white i.now, [], .returned⟩
  if !sendButtonEnabled then error "All fields must not be left empty!"
  else if !isValidUsername s.username then error "Please provide a valid in-game name."
  else if !isValidPassword s.password then error "Please provide a valid ran name."
  else
    let s := { s with clickCounter := s.clickCounter + 1 }
    if s.clickCounter ≥ maxClicks && i.messageBoxW == IDOK then ⟨s, [], .exited (-1)⟩
    else
      match (sendLoginRequest i.calls s.username s.password s.hwid).exec with
      | (.error what, events) => ⟨s, events, .threw what⟩
      | (.ok statusCode, events) =>
        if statusCode = 204 then
          ⟨(s.showNotification "A" "Notification"
              "Message sent! Wait for activation to turn green before injecting." 3000 white
              i.now).saveHWID s.hwid, events, .returned⟩
        else
          ⟨s.showNotification "B" "Notification" "Message Failed! Try again!" 3000 white i.now,
            events, .returned⟩

/-- The status code of the request that a click sends. -/
def SendInput.status (i : SendInput) (s : FormState) : Option Int :=
  i.calls.status (postData s.username s.password s.hwid)

/-- A click sends a request unless its inputs are rejected or the limit ends the process. -/
structure Accepted (s : FormState) : Prop where
  username : isValidUsername s.username = true
  password : isValidPassword s.password = true
  limit : s.clickCounter + 1 < maxClicks

/-- A click with accepted inputs below the limit: the request, then the notification about it. -/
theorem form3Send_accepted {s : FormState} (h : Accepted s) (i : SendInput) :
    form3Send s true i =
      let s' := { s with clickCounter := s.clickCounter + 1 }
      match (sendLoginRequest i.calls s.username s.password s.hwid).exec with
      | (.error what, events) => ⟨s', events, .threw what⟩
      | (.ok statusCode, events) =>
        if statusCode = 204 then
          ⟨(s'.showNotification "A" "Notification"
              "Message sent! Wait for activation to turn green before injecting." 3000 white
              i.now).saveHWID s.hwid, events, .returned⟩
        else
          ⟨s'.showNotification "B" "Notification" "Message Failed! Try again!" 3000 white i.now,
            events, .returned⟩ := by
  have hlimit : ¬ s.clickCounter + 1 ≥ maxClicks := not_le.mpr h.limit
  simp [form3Send, h.username, h.password, hlimit]

/-- The notification about a request with this status code. -/
def statusNotification (status : Option Int) (now : ℚ) : Notification :=
  if status = some 204 then
    notification "A" "Notification"
      "Message sent! Wait for activation to turn green before injecting." 3000 white now
  else notification "B" "Notification" "Message Failed! Try again!" 3000 white now

/-- The click returns, with one notification that tells how it went; the HWID is saved if the
status is 204, and every handle has been closed once. -/
structure FinishesNormally (s : FormState) (i : SendInput) : Prop where
  returned : (form3Send s true i).ending = .returned
  notified : (form3Send s true i).form.notifications =
    s.notifications ++ [statusNotification (i.status s) i.now]
  saved : (form3Send s true i).form.sentHwids =
    if i.status s = some 204 then s.sentHwids ++ [s.hwid] else s.sentHwids
  closed : ClosedOnce (form3Send s true i).events

/-- All five WinINet calls of the request succeed. -/
structure InetCalls.Succeed (c : InetCalls) (post_data : List BYTE) : Prop where
  internetOpenA : c.internetOpenA = true
  internetConnectA : c.internetConnectA = true
  httpOpenRequestA : c.httpOpenRequestA = true
  httpSendRequestA : c.httpSendRequestA post_data = true
  httpQueryInfoA : c.httpQueryInfoA ≠ none

theorem InetCalls.succeed_iff {c : InetCalls} {post_data : List BYTE} :
    c.Succeed post_data ↔ c.status post_data ≠ none := by
  constructor
  · rintro ⟨h₁, h₂, h₃, h₄, h₅⟩
    simpa [InetCalls.status, h₁, h₂, h₃, h₄] using h₅
  · intro h
    unfold InetCalls.status at h
    split at h
    · rename_i hc
      simp only [Bool.and_eq_true] at hc
      exact ⟨hc.1.1.1, hc.1.1.2, hc.1.2, hc.2, by simpa using h⟩
    · exact absurd rfl h

/-- Whatever the network does, an accepted click leaves no handle open. -/
theorem form3Send_closedOnce {s : FormState} (h : Accepted s) (i : SendInput) :
    ClosedOnce (form3Send s true i).events := by
  have hc := sendLoginRequest_closedOnce i.calls s.username s.password s.hwid
  rw [form3Send_accepted h]
  generalize (sendLoginRequest i.calls s.username s.password s.hwid).exec = r at hc
  obtain ⟨_ | code, events⟩ := r
  · exact hc
  · simp only
    split <;> exact hc

/-- An accepted click finishes normally exactly if the five WinINet calls of its request succeed. -/
theorem finishesNormally_iff {s : FormState} (h : Accepted s) (i : SendInput) :
    FinishesNormally s i ↔ i.calls.Succeed (postData s.username s.password s.hwid) := by
  have hr := sendLoginRequest_eq i.calls s.username s.password s.hwid
  rw [InetCalls.succeed_iff, ← SendInput.status]
  rw [← SendInput.status] at hr
  constructor
  · intro hf hnone
    rw [hnone] at hr
    obtain ⟨what, hr⟩ := hr
    have hret := hf.returned
    rw [form3Send_accepted h] at hret
    generalize (sendLoginRequest i.calls s.username s.password s.hwid).exec = r at hr hret
    obtain ⟨_, events⟩ := r
    subst hr
    cases hret
  · intro hsome
    obtain ⟨code, hcode⟩ := Option.ne_none_iff_exists'.mp hsome
    rw [hcode] at hr
    have hclosed := form3Send_closedOnce h i
    have heq := form3Send_accepted h i
    generalize (sendLoginRequest i.calls s.username s.password s.hwid).exec = r at hr heq
    obtain ⟨_, events⟩ := r
    simp only at hr
    subst hr
    by_cases h204 : code = 204
    · subst h204
      refine ⟨?_, ?_, ?_, hclosed⟩ <;> rw [heq] <;>
        simp [hcode, statusNotification, FormState.showNotification, FormState.saveHWID]
    · refine ⟨?_, ?_, ?_, hclosed⟩ <;> rw [heq] <;>
        simp [hcode, h204, statusNotification, FormState.showNotification]

/-- A form with inputs that the checks accept. -/
def sampleForm : FormState :=
  { FormState.init with
    username := bytes "Pogi123"
    password := bytes "Pogi Ran EP7"
    hwid := bytes "S-1-5-21-1004" }

theorem sampleForm_accepted : Accepted sampleForm := ⟨by decide, by decide, by decide⟩

/-- A network that answers every request with 204. -/
def sampleNetwork : InetCalls where
  internetOpenA := true
  internetConnectA := true
  httpOpenRequestA := true
  httpSendRequestA _ := true
  httpQueryInfoA := some 204

theorem finishesNormally_iff_sample :
    FinishesNormally sampleForm ⟨0, IDOK, sampleNetwork⟩ ↔
      sampleNetwork.Succeed (postData sampleForm.username sampleForm.password sampleForm.hwid) :=
  finishesNormally_iff sampleForm_accepted ⟨0, IDOK, sampleNetwork⟩

/-- Without a network the exception of `SendLoginRequest` leaves the handler of an accepted click,
and no notification is pushed. -/
theorem not_finishesNormally_offline :
    Accepted sampleForm ∧
    (form3Send sampleForm true ⟨0, IDOK, { sampleNetwork with internetOpenA := false }⟩).ending =
      .threw "Failed to open session" ∧
    ¬ FinishesNormally sampleForm ⟨0, IDOK, { sampleNetwork with internetOpenA := false }⟩ := by
  have hend : (form3Send sampleForm true
      ⟨0, IDOK, { sampleNetwork with internetOpenA := false }⟩).ending =
        .threw "Failed to open session" := by
    rw [form3Send_accepted sampleForm_accepted]
    rfl
  refine ⟨sampleForm_accepted, hend, fun h => ?_⟩
  have hret := h.returned
  rw [hend] at hret
  cases hret

end Bossran
