import BossranMenu.Scan.Caving

/-!
# `BooleanFunct` and the slot worker (`Scan.h`)

Each check box of `BooleanFunct` is a `Toggle`: its flag, and the `WriteBytes` calls of the branch
that the flag takes. `booleanFunct` starts the slot worker if it has to and then makes the writes
of the toggles in the order of the source. `workerVisit` is one round of the worker's inner loop:
one address of its table.

* `booleanFunct_mem`: a call is one batch of stores (`Memory.writeAll`).
* `toggleCalls_sublist`: the ranges of a call are among those of the on branches, in their order.
-/

namespace Bossran

open Memory

def SPACEaddress : DWORD := 0x00AFC3C5
def vindmodeaddress : DWORD := 0x0058AC46
def petaddress : DWORD := 0x0267AC2E
def inviaddress : DWORD := 0x02679931
def autopkAddress : DWORD := 0x0267BB35

/-- A check box of `BooleanFunct`. -/
structure Toggle where
  flag : Flag
  /-- The `WriteBytes` calls while the flag is set. -/
  on : List (Target × List BYTE)
  /-- The `WriteBytes` calls of the `else` branch. -/
  off : List (Target × List BYTE)

namespace Toggle

def buslayo : Toggle where
  flag := .buslayo
  on := [(.site .lrbuss, [0x90, 0x90, 0x90, 0x90])]
  off := [(.site .lrbuss, [0x8b, 0x4c, 0x24, 0x14])]

/-- The one check box without an `else` branch. -/
def space : Toggle where
  flag := .space
  on := [(.fixed SPACEaddress, [0x32])]
  off := []

def pyheck : Toggle where
  flag := .pyheck
  on := [(.site .TAXIHACK, [0x90, 0x90, 0x90]), (.site .SPBPHACK, [0x90, 0x90, 0x90]),
    (.site .PYTELEHACK, [0x90, 0x90, 0x90])]
  off := [(.site .TAXIHACK, [0x38, 0x58, 0x3C]), (.site .SPBPHACK, [0x8a, 0x48, 0x3c]),
    (.site .PYTELEHACK, [0x8a, 0x48, 0x3c])]

def tagoswall : Toggle where
  flag := .tagoswall
  on := [(.site .tagos1, [0x90, 0x90, 0x90, 0x90, 0x90, 0x90, 0x90]),
    (.site .tagos2, [0x90, 0x90, 0x90, 0x90, 0x90, 0x90, 0x90])]
  off := [(.site .tagos1, [0xD9, 0x44, 0x24, 0x3c, 0x8B, 0x40, 0x08]),
    (.site .tagos2, [0xD9, 0x44, 0x24, 0x18, 0x8B, 0x43, 0x10])]

def bohay : Toggle where
  flag := .bohay
  on := [(.site .nocdrevive, [0x80, 0xBF]), (.site .nocdrevive2, [0x80, 0xBF])]
  off := [(.site .nocdrevive, [0x20, 0x41]), (.site .nocdrevive2, [0x80, 0x3F])]

def vend : Toggle where
  flag := .vend
  on := [(.fixed vindmodeaddress, [0xEB])]
  off := [(.fixed vindmodeaddress, [0x74])]

def bilispet : Toggle where
  flag := .bilispet
  on := [(.fixed petaddress, [0x50, 0x46])]
  off := [(.fixed petaddress, [0xC8, 0x42])]

def tago : Toggle where
  flag := .tago
  on := [(.site .invibypass1, [0x90, 0x90, 0x90, 0x90, 0x90, 0x90, 0x90]),
    (.fixed inviaddress, [0x01])]
  off := [(.site .invibypass1, [0xC6, 0x86, 0xD1, 0x8A, 0x00, 0x00, 0x00]),
    (.fixed inviaddress, [0x00])]

def lawakpepe : Toggle where
  flag := .lawakpepe
  on := [(.site .lawak1, [0x90, 0x90, 0x90, 0x90, 0x90, 0x90]), (.site .lawak2, [0x90, 0x90]),
    (.site .lawak3, [0x90, 0x90, 0x90, 0x90, 0x90, 0x90])]
  off := [(.site .lawak1, [0xD8, 0x0D, 0x9C, 0xfd, 0x81, 0x00]), (.site .lawak2, [0x33, 0xC0]),
    (.site .lawak3, [0xD8, 0x05, 0xeC, 0xfa, 0x81, 0x00])]

def mata : Toggle where
  flag := .mata
  on := [(.site .drones, [0xEB])]
  off := [(.site .drones, [0x75])]

def wallneym : Toggle where
  flag := .wallneym
  on := [(.site .wallnames, [0xEB])]
  off := [(.site .wallnames, [0x74])]

def fscroll : Toggle where
  flag := .fscroll
  on := [(.site .fscrolls, [0x00, 0x00, 0x96, 0x43])]
  off := [(.site .fscrolls, [0x00, 0x00, 0xA0, 0x42])]

def fog : Toggle where
  flag := .fog
  on := [(.site .fogs, [0x00, 0x24, 0x74, 0x49])]
  off := [(.site .fogs, [0x00, 0x00, 0x2F, 0x44])]

def autored : Toggle where
  flag := .autored
  on := [(.fixed autopkAddress, [0x01])]
  off := [(.fixed autopkAddress, [0x00])]

/-- The branch that a toggle takes. -/
def calls (t : Toggle) (flags : Flags) : List (Target × List BYTE) :=
  if flags t.flag then t.on else t.off

end Toggle

/-- The check boxes in the order in which `BooleanFunct` handles them. -/
def toggles : List Toggle :=
  [.buslayo, .space, .pyheck, .tagoswall, .bohay, .vend, .bilispet, .tago, .lawakpepe, .mata,
    .wallneym, .fscroll, .fog, .autored]

/-- The `WriteBytes` calls of `BooleanFunct`. -/
def toggleCalls (flags : Flags) : List (Target × List BYTE) := toggles.flatMap (·.calls flags)

/-- `WriteBytes` calls, in order. -/
def World.writeCalls (s : World) (cs : List (Target × List BYTE)) : World :=
  cs.foldl (fun s c => s.writeBytes c.1 c.2) s

/-- The first part of `BooleanFunct`: the slot worker is launched once. -/
def World.startWorker (s : World) : World :=
  if s.flags .antingongo then
    if !s.started then { s with started := true, workers := s.workers + 1 } else s
  else s

/-- `BooleanFunct`. -/
def booleanFunct (s : World) : World := s.startWorker.writeCalls (toggleCalls s.flags)

/-! ## The slot worker -/

/-- The table `addresses` of the worker. -/
def workerAddresses : List DWORD :=
  [0x02678E54, 0x02678EFC, 0x02678FA4, 0x0267904C, 0x026790F4,
    0x0267919C, 0x02679244, 0x02679244, 0x02679394, 0x0267943C,
    0x026794E4, 0x0267958C, 0x02679634, 0x026796DC, 0x02679784]

def targetValues : List (List BYTE) :=
  [[0x38, 0x00, 0x26, 0x00], [0x21, 0x00, 0x4B, 0x00], [0x2B, 0x00, 0x13, 0x00],
    [0x38, 0x00, 0x19, 0x00], [0x38, 0x00, 0x15, 0x00], [0x2F, 0x00, 0x12, 0x00]]

def replacementValue : List BYTE := [0xFF, 0xFF, 0xFF, 0xFF]

/-- The worker at one address of its table: a target value found there is replaced. -/
def World.workerVisit (s : World) (address : DWORD) : World :=
  if ∃ target ∈ targetValues, Reads s.mem.bytes address target then
    { s with
      mem := { s.mem with bytes := store s.mem.bytes address replacementValue }
      log := s.log ++ [⟨.fixed address, ⟨address, replacementValue⟩⟩] }
  else s

/-! ## A call is a batch of stores -/

/-- The stores of a list of calls, with the addresses that the state gives them. -/
def World.writes (s : World) (cs : List (Target × List BYTE)) : List (Write 32 BYTE) :=
  cs.map fun c => ⟨s.address c.1, c.2⟩

@[simp] theorem World.startWorker_mem (s : World) : s.startWorker.mem = s.mem := by
  unfold World.startWorker
  split <;> [split <;> rfl; rfl]

@[simp] theorem World.startWorker_site (s : World) : s.startWorker.site = s.site := by
  unfold World.startWorker
  split <;> [split <;> rfl; rfl]

@[simp] theorem World.startWorker_log (s : World) : s.startWorker.log = s.log := by
  unfold World.startWorker
  split <;> [split <;> rfl; rfl]

@[simp] theorem World.startWorker_flags (s : World) : s.startWorker.flags = s.flags := by
  unfold World.startWorker
  split <;> [split <;> rfl; rfl]

theorem World.address_congr {s s' : World} (h : s'.site = s.site) : s'.address = s.address := by
  funext t
  rw [World.address, World.address, h]

theorem World.writes_congr {s s' : World} (h : s'.site = s.site)
    (cs : List (Target × List BYTE)) : s'.writes cs = s.writes cs := by
  simp only [World.writes, World.address_congr h]

@[simp] theorem World.writeCalls_site (s : World) (cs : List (Target × List BYTE)) :
    (s.writeCalls cs).site = s.site := by
  induction cs generalizing s with
  | nil => rfl
  | cons c cs ih => exact (ih (s.writeBytes c.1 c.2)).trans (s.writeBytes_site _ _)

@[simp] theorem World.writeCalls_flags (s : World) (cs : List (Target × List BYTE)) :
    (s.writeCalls cs).flags = s.flags := by
  induction cs generalizing s with
  | nil => rfl
  | cons c cs ih => exact (ih (s.writeBytes c.1 c.2)).trans (s.writeBytes_flags _ _)

theorem World.writeCalls_mem (s : World) (cs : List (Target × List BYTE)) :
    (s.writeCalls cs).mem.bytes = writeAll s.mem.bytes (s.writes cs) := by
  induction cs generalizing s with
  | nil => rfl
  | cons c cs ih =>
    rw [World.writeCalls, List.foldl_cons]
    refine (ih (s.writeBytes c.1 c.2)).trans ?_
    rw [World.writes_congr (s.writeBytes_site c.1 c.2)]
    rfl

theorem World.writeCalls_log (s : World) (cs : List (Target × List BYTE)) :
    (s.writeCalls cs).log = s.log ++ cs.map fun c => ⟨c.1, ⟨s.address c.1, c.2⟩⟩ := by
  induction cs generalizing s with
  | nil => simp [World.writeCalls]
  | cons c cs ih =>
    rw [World.writeCalls, List.foldl_cons]
    refine (ih (s.writeBytes c.1 c.2)).trans ?_
    simp

@[simp] theorem booleanFunct_site (s : World) : (booleanFunct s).site = s.site := by
  simp [booleanFunct]

@[simp] theorem booleanFunct_flags (s : World) : (booleanFunct s).flags = s.flags := by
  simp [booleanFunct]

/-- The memory after a call of `BooleanFunct`. -/
theorem booleanFunct_mem (s : World) :
    (booleanFunct s).mem.bytes = writeAll s.mem.bytes (s.writes (toggleCalls s.flags)) := by
  rw [booleanFunct, World.writeCalls_mem, World.writes_congr s.startWorker_site,
    World.startWorker_mem]

/-- The log after a call of `BooleanFunct`. -/
theorem booleanFunct_log (s : World) : (booleanFunct s).log =
    s.log ++ (toggleCalls s.flags).map fun c => ⟨c.1, ⟨s.address c.1, c.2⟩⟩ := by
  rw [booleanFunct, World.writeCalls_log, World.startWorker_log,
    World.address_congr s.startWorker_site]

/-! ## The ranges of the toggles -/

/-- The range that a `WriteBytes` call writes. -/
def callRange (c : Target × List BYTE) : Target × Nat := (c.1, c.2.length)

/-- The ranges of all toggles. -/
def toggleRanges : List (Target × Nat) := toggles.flatMap fun t => t.on.map callRange

/-- The off branch of a toggle writes the ranges of its on branch; `space` has none. -/
theorem Toggle.off_ranges {t : Toggle} (ht : t ∈ toggles) :
    t.off.map callRange = t.on.map callRange ∨ t = Toggle.space := by
  simp only [toggles, List.mem_cons, List.not_mem_nil, or_false] at ht
  rcases ht with rfl | rfl | rfl | rfl | rfl | rfl | rfl | rfl | rfl | rfl | rfl | rfl | rfl | rfl
  all_goals first | exact .inl rfl | exact .inr rfl

theorem Toggle.calls_sublist {t : Toggle} (ht : t ∈ toggles) (flags : Flags) :
    ((t.calls flags).map callRange).Sublist (t.on.map callRange) := by
  unfold Toggle.calls
  split
  · exact List.Sublist.refl _
  · rcases Toggle.off_ranges ht with h | rfl
    · rw [h]
    · exact List.nil_sublist _

/-- Whatever the flags, a call writes ranges of the toggles, each at most once, in their order. -/
theorem toggleCalls_sublist (flags : Flags) :
    ((toggleCalls flags).map callRange).Sublist toggleRanges := by
  unfold toggleCalls toggleRanges
  rw [List.map_flatMap]
  have h := fun t ht => Toggle.calls_sublist (t := t) ht flags
  generalize toggles = ts at h
  induction ts with
  | nil => exact List.Sublist.refl _
  | cons t ts ih =>
    rw [List.flatMap_cons, List.flatMap_cons]
    exact (h t (List.mem_cons_self ..)).append (ih fun u hu => h u (List.mem_cons_of_mem _ hu))

theorem toggleRanges_small : ∀ r ∈ toggleRanges, 0 < r.2 ∧ r.2 ≤ 7 := by decide

/-- A range of the toggles is written by every call, except the one of `space`. -/
theorem toggleCalls_covers (flags : Flags) {r : Target × Nat} (hr : r ∈ toggleRanges)
    (hs : r = (.fixed SPACEaddress, 1) → flags .space = true) :
    r ∈ (toggleCalls flags).map callRange := by
  unfold toggleRanges at hr
  obtain ⟨t, ht, hrt⟩ := List.mem_flatMap.mp hr
  unfold toggleCalls
  rw [List.map_flatMap]
  refine List.mem_flatMap.mpr ⟨t, ht, ?_⟩
  unfold Toggle.calls
  split
  · exact hrt
  · rename_i hf
    rcases Toggle.off_ranges ht with h | rfl
    · rwa [h]
    · exact absurd (hs (by simpa [Toggle.space, callRange] using hrt)) hf

theorem toggleCalls_small {flags : Flags} {c : Target × List BYTE} (hc : c ∈ toggleCalls flags) :
    0 < c.2.length ∧ c.2.length ≤ 7 :=
  toggleRanges_small _ ((toggleCalls_sublist flags).subset (List.mem_map_of_mem hc))

end Bossran
