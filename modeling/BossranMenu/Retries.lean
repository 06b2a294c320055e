import BossranMenu.Gate

/-!
# The handles of the retries (`ValidateHWIDPeriodically` in `main.cpp`)

`Form3` and `Form1` launch a thread that validates again and again. What it opens and closes is in
the calls of `GetComputerSid` and `DownloadContentFromUrl` that its trace has.

* `download_balanced`: a download closes what it opens, at every exit.
* `getComputerSid_openCount`: `GetComputerSid` keeps the process token open exactly if it throws
  between `OpenProcessToken` and `CloseHandle` (`LeaksToken`).
* `handlesKept_iff`: the open handles at the loop head stay what they were at the first iteration
  exactly if no iteration leaks the token.
-/

namespace Bossran

open Handles Transition

/-! ## The two calls -/

/-- `GetComputerSid` throws while the token is open. -/
def LeaksToken (c : SidCalls) : Prop :=
  c.openProcessToken = true ∧ (c.bufferSize = 0 ∨ c.getTokenInformation = false)

instance (c : SidCalls) : Decidable (LeaksToken c) :=
  inferInstanceAs (Decidable (_ ∧ _))

theorem getComputerSid_openCount (c : SidCalls) (k : Resource) :
    openCount (getComputerSidTry c).exec.2 k = if k = .hToken ∧ LeaksToken c then 1 else 0 := by
  obtain ⟨opens, size, info, sid⟩ := c
  have hcomm : (Resource.hToken = k) = (k = Resource.hToken) := propext eq_comm
  cases opens with
  | false => simp [getComputerSidTry, Tracked.exec, LeaksToken]
  | true =>
    by_cases hs : size = 0#32
    · simp [getComputerSidTry, Tracked.exec, LeaksToken, hs, hcomm]
    · cases info with
      | false => simp [getComputerSidTry, Tracked.exec, LeaksToken, hs, hcomm]
      | true => cases sid <;> simp [getComputerSidTry, Tracked.exec, LeaksToken, hs]

/-- A round of the read loop deletes its buffer. -/
theorem readLoop_openCount {rounds : List Round} {response : List BYTE}
    {es : List (Event Resource)} {r : List BYTE × List (Event Resource)} (k : Resource)
    (h : (readLoop rounds response).run es = some r) : openCount r.2 k = openCount es k := by
  induction rounds generalizing response es with
  | nil => cases h
  | cons round rounds ih =>
    cases round with
    | queryFailed =>
      cases h
      rfl
    | available dwSize chunk =>
      have hbuf : openCount (es ++ [.opened .pszOutBuffer] ++ [.closed .pszOutBuffer]) k =
          openCount es k := by
        simp
      unfold readLoop at h
      by_cases hd : dwSize > 0
      · simp only [hd, if_true] at h
        exact (ih h).trans hbuf
      · simp only [hd, if_false] at h
        cases h
        exact hbuf

/-- A download closes what it opens, at every exit. -/
theorem download_balanced {c : HttpCalls} {r : List BYTE × List (Event Resource)} (k : Resource)
    (h : (downloadContentFromUrl c).run [] = some r) : openCount r.2 k = 0 := by
  obtain ⟨opens, connects, requests, sends, receives, rounds⟩ := c
  cases opens with
  | false =>
    cases h
    rfl
  | true =>
    cases connects with
    | false =>
      cases h
      simp
    | true =>
      cases requests with
      | false =>
        cases h
        simp
      | true =>
        cases hok : sends && receives with
        | false =>
          simp only [downloadContentFromUrl, hok] at h
          cases h
          simp
        | true =>
          simp only [downloadContentFromUrl, hok] at h
          -- The three handles are open before the read loop and closed after it.
          have hloop : ((readLoop rounds []).run
              [.opened .hSession, .opened .hConnect, .opened .hRequest]).bind (fun q =>
                some (q.1, q.2 ++ [.closed .hRequest] ++ [.closed .hConnect] ++
                  [.closed .hSession])) = some r := h
          obtain ⟨q, hq, hr⟩ := Option.bind_eq_some_iff.mp hloop
          cases hr
          simp [readLoop_openCount k hq]
          omega

/-! ## The open handles of a thread -/

/-- What an action opens and closes on behalf of the thread `t`. -/
def Action.events (t : Launcher) : Action → List (Event Resource)
  | .getComputerSid u calls => if u = t then (getComputerSidTry calls).exec.2 else []
  | .download u calls =>
    if u = t then
      match (downloadContentFromUrl calls).run [] with
      | some (_, es) => es
      | none => []
    else []
  | _ => []

/-- How many handles of a kind the thread `t` has open after a trace. -/
def openHandles (t : Launcher) (tr : List Action) (k : Resource) : Int :=
  openCount (tr.flatMap (Action.events t)) k

/-- The action is a call of `GetComputerSid` by `t` that leaks the token. -/
def Action.leaks (t : Launcher) : Action → Bool
  | .getComputerSid u calls => u = t && LeaksToken calls
  | _ => false

theorem Action.events_openCount (a : Action) (t : Launcher) (k : Resource) :
    openCount (a.events t) k = if k = .hToken ∧ a.leaks t then 1 else 0 := by
  cases a with
  | getComputerSid u calls =>
    by_cases hu : u = t
    · simp [Action.events, Action.leaks, hu, getComputerSid_openCount]
    · simp [Action.events, Action.leaks, hu]
  | download u calls =>
    simp only [Action.events, Action.leaks, Bool.false_eq_true, and_false, if_false]
    split
    · split
      · rename_i h
        exact download_balanced k h
      · rfl
    · rfl
  | _ => simp [Action.events, Action.leaks]

/-- Each leaking call leaves one more token open, and nothing else is left open. -/
theorem openHandles_eq (t : Launcher) (tr : List Action) (k : Resource) :
    openHandles t tr k = if k = .hToken then (tr.countP (Action.leaks t) : Int) else 0 := by
  induction tr with
  | nil => simp [openHandles]
  | cons a tr ih =>
    unfold openHandles at ih ⊢
    rw [List.flatMap_cons, openCount_append, ih, a.events_openCount, List.countP_cons]
    by_cases hk : k = .hToken
    · cases a.leaks t <;> simp [hk]
      omega
    · simp [hk]

theorem countP_leaks_eq_zero {t : Launcher} {tr : List Action} :
    tr.countP (Action.leaks t) = 0 ↔
      ∀ calls, .getComputerSid t calls ∈ tr → ¬ LeaksToken calls := by
  rw [List.countP_eq_zero]
  constructor
  · intro hno calls hc hleak
    exact hno _ hc (by simp [Action.leaks, hleak])
  · intro hno a ha
    cases a with
    | getComputerSid u calls =>
      simp only [Action.leaks, Bool.and_eq_true, decide_eq_true_eq, not_and]
      rintro rfl
      exact hno calls ha
    | _ => simp [Action.leaks]

/-! ## The loop head -/

section

variable {minia : Option GameModule} {caves : Cave → DWORD} {s s' : State} {t : Launcher}

/-- A step of a thread after its launch: it comes to the loop head from its sleep only, and the
thread of `Form4` does not sleep. -/
structure Moves (t : Launcher) (pc pc' : ThreadPc) : Prop where
  launched : pc ≠ .notStarted
  loopTest : pc' = .loopTest → pc = .sleep
  sleep : pc' = .sleep → t ≠ .form4

theorem threadStep_moves {u : Launcher} (h : threadStep s u = some s') :
    s'.thread t = s.thread t ∨ Moves t (s.thread t) (s'.thread t) := by
  by_cases ht : t = u
  · subst ht
    right
    unfold threadStep at h
    split at h <;> cases h
    all_goals
      rename_i hpc
      constructor <;> simp only [hpc, State.goto, Function.update_self, ne_eq, reduceCtorEq,
        not_false_eq_true, forall_true_left, false_implies]
      all_goals split <;> simp [*]
  · left
    unfold threadStep at h
    split at h <;> cases h <;> simp [State.goto, Function.update_of_ne ht]

/-- A call of `u` returns, and `u` goes on where it is neither at its loop head nor asleep. -/
theorem goto_moves {u : Launcher} {pc : ThreadPc} (hu : s.thread u ≠ .notStarted)
    (hl : pc ≠ .loopTest) (hs : pc ≠ .sleep) :
    Moves t (s.thread t) ((s.goto u pc).thread t) ∨
      u ≠ t ∧ (s.goto u pc).thread t = s.thread t := by
  by_cases ht : u = t
  · subst ht
    simp only [State.goto, Function.update_self]
    exact .inl ⟨hu, fun h => absurd h hl, fun h => absurd h hs⟩
  · exact .inr ⟨ht, Function.update_of_ne (Ne.symm ht) ..⟩

/-- A thread opens and closes nothing before it is launched. -/
theorem step_moves {a : Action} (h : step minia caves s a = some s') (t : Launcher) :
    Moves t (s.thread t) (s'.thread t) ∨ a.events t = [] ∧
      (s'.thread t = s.thread t ∨ s.thread t = .notStarted ∧ s'.thread t = t.start) := by
  obtain ⟨-, h⟩ := step_cases h
  cases a with
  | thread u => exact (threadStep_moves h).symm.imp_right fun h => ⟨rfl, .inl h⟩
  | getComputerSid u calls =>
    obtain ⟨hpc, rfl⟩ := h
    refine (goto_moves (by simp [hpc]) (by simp) (by simp)).imp_right fun ⟨hu, h⟩ => ⟨?_, .inl h⟩
    simp [Action.events, hu]
  | download u calls =>
    obtain ⟨_, _, hpc, -, rfl⟩ := h
    refine (goto_moves (by simp [hpc]) (by split <;> simp) (by split <;> simp)).imp_right
      fun ⟨hu, h⟩ => ⟨?_, .inl h⟩
    simp [Action.events, hu]
  | badAlloc u =>
    obtain ⟨_, hpc, rfl⟩ := h
    exact (goto_moves (by simp [hpc]) (by simp) (by simp)).imp_right fun h => ⟨rfl, .inl h.2⟩
  | ui i =>
    cases h
    exact .inr ⟨rfl, uiStep_thread minia caves s i t⟩
  | worker address =>
    cases h
    exact .inr ⟨rfl, .inl rfl⟩
  | game bytes =>
    cases h
    exact .inr ⟨rfl, .inl rfl⟩

/-- The thread of `Form4` validates once. -/
theorem form4_once {tr : List Action} (h : (machine minia caves).Run tr s) :
    s.thread .form4 ≠ .loopTest ∧ s.thread .form4 ≠ .sleep := by
  refine h.state_invariant
    (I := fun s => s.thread .form4 ≠ .loopTest ∧ s.thread .form4 ≠ .sleep) ?_ ?_
  · rintro s ⟨m, rfl⟩
    simp [State.init]
  · intro s a s' hi hs
    rcases step_moves hs .form4 with hm | ⟨-, he | ⟨-, he⟩⟩
    · exact ⟨fun h => hi.2 (hm.loopTest h), fun h => hm.sleep h rfl⟩
    · rwa [he]
    · rw [he]
      simp [Launcher.start]

variable (minia caves) in
/-- The trace ends with `t` at `while (!isHWIDValid)`. -/
def AtLoopHead (t : Launcher) (tr : List Action) : Prop :=
  ∃ s, (machine minia caves).Run tr s ∧ s.thread t = .loopTest

/-- A thread that was launched has come to its loop head before it opened anything. -/
theorem first_loopHead {tr : List Action} (h : (machine minia caves).Run tr s) (ht : t ≠ .form4) :
    (∀ a ∈ tr, a.events t = []) ∧ s.thread t = .notStarted ∨
      ∃ tr₁, tr₁ <+: tr ∧ AtLoopHead minia caves t tr₁ ∧ ∀ a ∈ tr₁, a.events t = [] := by
  induction h with
  | init hi =>
    obtain ⟨m, rfl⟩ := hi
    exact .inl ⟨by simp, rfl⟩
  | @step tr s s' a hr _ hs ih =>
    rcases ih with ⟨hquiet, hn⟩ | ⟨tr₁, hpre, hhead, hquiet⟩
    · rcases step_moves hs t with hm | ⟨ha, hstep⟩
      · exact absurd hn hm.launched
      · have hall : ∀ b ∈ tr ++ [a], b.events t = [] := by
          simpa [or_imp, forall_and, ha] using hquiet
        rcases hstep with he | ⟨-, he⟩
        · exact .inl ⟨hall, he.trans hn⟩
        · refine .inr ⟨tr ++ [a], List.prefix_rfl, ⟨s', hr.step a trivial hs, he.trans ?_⟩, hall⟩
          cases t with
          | form4 => exact absurd rfl ht
          | form3 | form1 => rfl
    · exact .inr ⟨tr₁, hpre.trans (List.prefix_append ..), hhead, hquiet⟩

variable (minia caves) in
/-- At every loop head of `t` in the trace, `t` has as many handles open as at an earlier one. -/
def HandlesKept (t : Launcher) (tr : List Action) : Prop :=
  ∀ tr₁ tr₂, tr₁ <+: tr₂ → tr₂ <+: tr → AtLoopHead minia caves t tr₁ →
    AtLoopHead minia caves t tr₂ → ∀ k, openHandles t tr₂ k = openHandles t tr₁ k

/-- The retries of a thread that is at its loop head have kept its handles exactly if no call of
`GetComputerSid` leaked the token. -/
theorem handlesKept_iff {tr : List Action} (h : (machine minia caves).Run tr s)
    (hl : s.thread t = .loopTest) :
    HandlesKept minia caves t tr ↔ ∀ calls, .getComputerSid t calls ∈ tr → ¬ LeaksToken calls := by
  rw [← countP_leaks_eq_zero]
  constructor
  · intro hkept
    have ht : t ≠ .form4 := by
      rintro rfl
      exact (form4_once h).1 hl
    rcases first_loopHead h ht with ⟨-, hn⟩ | ⟨tr₁, hpre, hhead, hquiet⟩
    · rw [hn] at hl
      cases hl
    · have hfirst : openHandles t tr₁ .hToken = 0 := by
        unfold openHandles
        rw [List.flatMap_eq_nil_iff.mpr hquiet, openCount_nil]
      have hlast := hkept tr₁ tr hpre List.prefix_rfl hhead ⟨s, h, hl⟩ .hToken
      rw [hfirst, openHandles_eq, if_pos rfl] at hlast
      exact_mod_cast hlast
  · intro hno tr₁ tr₂ hpre₁ hpre₂ _ _ k
    have hzero : ∀ tr', tr' <+: tr → tr'.countP (Action.leaks t) = 0 := fun tr' hpre =>
      Nat.eq_zero_of_le_zero (hno ▸ hpre.sublist.countP_le)
    rw [openHandles_eq, openHandles_eq, hzero _ hpre₂, hzero _ (hpre₁.trans hpre₂)]

end

/-! ## A retry -/

/-- `WinHttpOpen` fails. -/
def noDownload : HttpCalls := ⟨false, false, false, false, false, []⟩

/-- `Form3` is shown and launches its thread. -/
def firstTest : List Action := refusedRun sampleSid emptyDownload ++ [.ui noInput]

/-- One iteration, with so many steps after the download. -/
def iteration (sid : SidCalls) (n : Nat) : List Action :=
  [.thread .form3, .getComputerSid .form3 sid, .thread .form3, .download .form3 noDownload] ++
    List.replicate n (.thread .form3)

theorem firstTest_atLoopHead : AtLoopHead none noCaves .form3 firstTest :=
  Machine.exists_run ⟨⟨fun _ => 0, fun _ => 0x20⟩, rfl⟩ ⟨_, rfl, rfl⟩

/-- A retry in which `GetComputerSid` has the SID. -/
theorem handlesKept_iff_sampleSid :
    HandlesKept none noCaves .form3 (firstTest ++ iteration sampleSid 3) := by
  have hhead : AtLoopHead none noCaves .form3 (firstTest ++ iteration sampleSid 3) :=
    Machine.exists_run ⟨⟨fun _ => 0, fun _ => 0x20⟩, rfl⟩ ⟨_, rfl, rfl⟩
  obtain ⟨s, hr, hl⟩ := hhead
  refine (handlesKept_iff hr hl).mpr fun calls hc => ?_
  obtain rfl : calls = sampleSid := by
    simpa [firstTest, iteration, refusedRun] using hc
  decide

/-- `GetTokenInformation` reports no size: the exception leaves the token open. -/
def leakingSid : SidCalls := ⟨true, 0, false, none⟩

/-- One iteration, and one more process token is open at the loop head. -/
theorem not_handlesKept_leakingSid :
    ¬ HandlesKept none noCaves .form3 (firstTest ++ iteration leakingSid 4) ∧
      openHandles .form3 firstTest .hToken = 0 ∧
      openHandles .form3 (firstTest ++ iteration leakingSid 4) .hToken = 1 := by
  have hhead : AtLoopHead none noCaves .form3 (firstTest ++ iteration leakingSid 4) :=
    Machine.exists_run ⟨⟨fun _ => 0, fun _ => 0x20⟩, rfl⟩ ⟨_, rfl, rfl⟩
  have h₁ : openHandles .form3 firstTest .hToken = 0 := rfl
  have h₂ : openHandles .form3 (firstTest ++ iteration leakingSid 4) .hToken = 1 := rfl
  refine ⟨fun hkept => ?_, h₁, h₂⟩
  have he := hkept firstTest _ (List.prefix_append ..) List.prefix_rfl firstTest_atLoopHead hhead
    .hToken
  rw [h₁, h₂] at he
  cases he

end Bossran
