import BossranMenu.AutoScript

/-!
# Patch sites and the state of the patcher (`Scan.h`)

`Site` names the variables that receive a scan result, `Site.signature` the signature each is
searched by. `World` is the state that `ScriptCaving` and `BooleanFunct` share: the memory, the
site variables, the two return addresses, the toggle flags and the worker's `started` flag.
`World.log` is a ghost field: every write made so far, with the variable or the literal that gave
its address.
-/

namespace Bossran

open Memory

/-- The variables that hold a scan result: `DWORD` globals, and locals of `ScriptCaving`. -/
inductive Site where
  | lraddr | as1addr
  | drones | wallnames | lawak1 | lawak2 | lawak3 | fscrolls | fogs | invibypass1
  | nocdrevive | nocdrevive2 | tagos1 | tagos2 | TAXIHACK | PYTELEHACK | SPBPHACK | lrbuss
  | petcdbyps | bankcdbyps | bikecdbyps | slotcdbyps
  deriving DecidableEq

/-- The sites, in the order in which `ScriptCaving` searches them. -/
def Site.all : List Site :=
  [.lraddr, .as1addr, .drones, .wallnames, .lawak1, .lawak2, .lawak3, .fscrolls, .fogs,
    .invibypass1, .nocdrevive, .nocdrevive2, .tagos1, .tagos2, .TAXIHACK, .PYTELEHACK, .SPBPHACK,
    .lrbuss, .petcdbyps, .bankcdbyps, .bikecdbyps, .slotcdbyps]

theorem Site.mem_all (v : Site) : v ∈ Site.all := by
  cases v <;> decide

instance (P : Site → Prop) [DecidablePred P] : Decidable (∀ v, P v) :=
  decidable_of_iff (∀ v ∈ Site.all, P v) ⟨fun h v => h v v.mem_all, fun h v _ => h v⟩

structure Signature where
  pattern : List BYTE
  mask : String

/-- The signature by which `ScriptCaving` searches each site. -/
def Site.signature : Site → Signature
  | .lraddr => ⟨[0xD9, 0xFA, 0xD9, 0x5C, 0x24, 0x38, 0xFF], "xxxxxxx"⟩
  | .as1addr => ⟨[0x8B, 0xCE, 0xD9, 0x5C, 0x24, 0x10, 0xE8, 0xE1], "xxxxxxxx"⟩
  | .drones => ⟨[0x75, 0x09, 0x8B, 0x4E, 0x20, 0x89], "xxxxxx"⟩
  | .wallnames => ⟨[0x74, 0x23, 0x8B, 0x4C, 0x24, 0x34, 0x51, 0x8D], "xxxxxxxx"⟩
  | .lawak1 => ⟨[0xD8, 0x0D, 0x9C, 0xFD, 0x81, 0x00, 0x52, 0x8B], "xxxxxxxx"⟩
  | .lawak2 => ⟨[0x33, 0xC0, 0xC3, 0xCC, 0xCC, 0xCC, 0xCC, 0xCC, 0xCC, 0xCC, 0xCC, 0xCC, 0xCC,
      0xCC, 0xCC, 0x83, 0xEC], "xxxxxxxxxxxxxxxxx"⟩
  | .lawak3 => ⟨[0xD8, 0x05, 0xEC, 0xEA, 0x81, 0x00, 0xD9, 0x5C, 0x24, 0x44], "xxxxxxxxxx"⟩
  | .fscrolls => ⟨[0x00, 0x00, 0xA0, 0x42, 0x35, 0xFA, 0x0E, 0x3C], "xxxxxxxx"⟩
  | .fogs => ⟨[0x00, 0x00, 0x2F, 0x44, 0x00, 0x00, 0x1B], "xxxxxxx"⟩
  | .invibypass1 => ⟨[0xC6, 0x86, 0xD1, 0x8A, 0x00, 0x00, 0x00, 0xC6, 0x86, 0xD2, 0x8A, 0x00,
      0x00, 0x00, 0x89, 0xAE], "xxxxxxxxxxxxxxxx"⟩
  | .nocdrevive => ⟨[0x20, 0x41, 0xC6, 0x86, 0xA5, 0x01], "xxxxxx"⟩
  | .nocdrevive2 => ⟨[0x80, 0x3F, 0xC7, 0x86, 0x98, 0x01, 0x00, 0x00, 0x00, 0x00, 0x20, 0x41,
      0xC6], "xxxxxxxxxxxxx"⟩
  | .tagos1 => ⟨[0xD9, 0x44, 0x24, 0x3C, 0x8B, 0x40, 0x08], "xxxxxxx"⟩
  | .tagos2 => ⟨[0xD9, 0x44, 0x24, 0x18, 0x8B, 0x43, 0x10], "xxxxxxx"⟩
  | .TAXIHACK => ⟨[0x38, 0x58, 0x3C, 0x75, 0x34, 0x53], "xxxxxx"⟩
  | .PYTELEHACK => ⟨[0x8A, 0x48, 0x3C, 0x84, 0xC9, 0x75, 0x4D, 0x6A], "xxxxxxxx"⟩
  | .SPBPHACK => ⟨[0x8A, 0x48, 0x3C, 0x84, 0xC9, 0x75, 0x4C, 0x6A, 0x00, 0x68, 0xC0, 0x2A, 0x83,
      0x00, 0xE8, 0xE1], "xxxxxxxxxxxxxxxx"⟩
  | .lrbuss => ⟨[0x8B, 0x4C, 0x24, 0x14, 0x8D, 0x74, 0x08, 0x1E], "xxxxxxxx"⟩
  | .petcdbyps => ⟨[0xD8, 0x1D, 0xEC, 0xEA, 0x81, 0x00, 0xDF, 0xE0, 0xF6, 0xC4, 0x05, 0x7A, 0x3A,
      0x6A, 0x00], "xxxxxxxxxxxxxxx"⟩
  | .bankcdbyps => ⟨[0xD8, 0x1D, 0xEC, 0xEA, 0x81, 0x00, 0xDF, 0xE0, 0xF6, 0xC4, 0x01],
      "xxxxxxxxxxx"⟩
  | .bikecdbyps => ⟨[0xD8, 0x1D, 0xEC, 0xEA, 0x81, 0x00, 0xDF, 0xE0, 0xF6, 0xC4, 0x05, 0x7A, 0x2E,
      0x6A], "xxxxxxxxxxxxxx"⟩
  | .slotcdbyps => ⟨[0x01, 0x75, 0x28, 0x56, 0x8B, 0xCB, 0xE8], "xxxxxxx"⟩

/-- `SigScan` of a site's signature in `minia.exe`. -/
def Site.scan (v : Site) (m : AddressSpace) (minia : Option GameModule) : DWORD :=
  sigScan m (getModuleInfo minia) v.signature.pattern v.signature.mask

/-- The toggle flags of the check boxes. -/
inductive Flag where
  | buslayo | space | pyheck | tagoswall | bohay | vend | bilispet | tago | lawakpepe
  | mata | wallneym | fscroll | fog | autored | antingongo
  deriving DecidableEq

abbrev Flags := Flag → Bool

/-- Where a write gets its address from: a site variable, or a literal of `Scan.h`. -/
inductive Target where
  | site (v : Site)
  | fixed (a : DWORD)
  deriving DecidableEq

structure LogEntry where
  target : Target
  write : Write 32 BYTE

structure World where
  mem : AddressSpace
  site : Site → DWORD
  jmpbacklr : DWORD
  jmpbackas1 : DWORD
  flags : Flags
  /-- The static `started` of the worker. -/
  started : Bool
  /-- How many worker threads have been launched. -/
  workers : Nat
  /-- Ghost: the writes so far, the oldest first. -/
  log : List LogEntry

/-- The state when the DLL is loaded, with the memory `m`. -/
def World.init (m : AddressSpace) : World where
  mem := m
  site := fun _ => 0
  jmpbacklr := 0
  jmpbackas1 := 0
  flags := fun _ => false
  started := false
  workers := 0
  log := []

/-- The address of a target, given the site variables. -/
def Target.address (site : Site → DWORD) : Target → DWORD
  | .site v => site v
  | .fixed a => a

def World.address (s : World) (t : Target) : DWORD := t.address s.site

/-- `WriteBytes` at a target. -/
def World.writeBytes (s : World) (t : Target) (bs : List BYTE) : World :=
  { s with
    mem := Bossran.writeBytes s.mem (s.address t) bs
    log := s.log ++ [⟨t, ⟨s.address t, bs⟩⟩] }

/-- `WriteNOPs` at a literal address. -/
def World.writeNOPs (s : World) (address : DWORD) (length : Nat) : World :=
  s.writeBytes (.fixed address) (List.replicate length 0x90)

@[simp] theorem World.writeBytes_site (s : World) (t : Target) (bs : List BYTE) :
    (s.writeBytes t bs).site = s.site := rfl

@[simp] theorem World.writeBytes_flags (s : World) (t : Target) (bs : List BYTE) :
    (s.writeBytes t bs).flags = s.flags := rfl

@[simp] theorem World.writeBytes_address (s : World) (t : Target) (bs : List BYTE) :
    (s.writeBytes t bs).address = s.address := rfl

@[simp] theorem World.writeBytes_mem (s : World) (t : Target) (bs : List BYTE) :
    (s.writeBytes t bs).mem.bytes = store s.mem.bytes (s.address t) bs := rfl

@[simp] theorem World.writeBytes_log (s : World) (t : Target) (bs : List BYTE) :
    (s.writeBytes t bs).log = s.log ++ [⟨t, ⟨s.address t, bs⟩⟩] := rfl

/-! ## Signatures -/

/-- The cells that a site's signature asks for. -/
def Site.cells (v : Site) : List (Option BYTE) :=
  maskedPattern v.signature.pattern v.signature.mask

/-- No signature has a wildcard, and each mask is as long as its pattern. -/
theorem Site.cells_eq (v : Site) : v.cells = v.signature.pattern.map some := by
  cases v <;> rfl

theorem Site.length_cells (v : Site) : v.cells.length = v.signature.pattern.length := by
  rw [v.cells_eq, List.length_map]

theorem Site.length_pattern_le (v : Site) : v.signature.pattern.length ≤ 17 := by
  cases v <;> decide

theorem Site.length_mask (v : Site) :
    v.signature.mask.toList.length = v.signature.pattern.length := by
  cases v <;> rfl

/-- The offset of the first match of a site's signature, if the loop of `SigScan` reaches one. -/
def Site.firstMatch (v : Site) (m : AddressSpace) (minia : Option GameModule) : Option Nat :=
  Memory.firstMatch m.bytes (getModuleInfo minia).lpBaseOfDll
    (scanBound (getModuleInfo minia) v.signature.pattern.length) v.cells

theorem Site.scan_eq (v : Site) (m : AddressSpace) (minia : Option GameModule) :
    v.scan m minia =
      match v.firstMatch m minia with
      | some i => (getModuleInfo minia).lpBaseOfDll + BitVec.ofNat 32 i
      | none => 0 := by
  have hlt : v.signature.mask.toList.length < 2 ^ 32 := by
    have := v.length_pattern_le
    rw [v.length_mask]
    omega
  rw [Site.scan, sigScan_eq _ _ _ hlt, v.length_mask]
  rfl

/-- A scan that does not return 0 returns the address of its first match. -/
theorem Site.firstMatch_of_scan_ne_zero {v : Site} {m : AddressSpace} {minia : Option GameModule}
    (h : v.scan m minia ≠ 0) : ∃ i, v.firstMatch m minia = some i ∧
      v.scan m minia = (getModuleInfo minia).lpBaseOfDll + BitVec.ofNat 32 i := by
  rw [v.scan_eq] at h ⊢
  split at h
  · rename_i i hi
    exact ⟨i, hi, rfl⟩
  · exact absurd rfl h

/-- Where a scan that does not return 0 points, the signature stands. -/
theorem Site.reads_of_scan_ne_zero {v : Site} {m : AddressSpace} {minia : Option GameModule}
    (h : v.scan m minia ≠ 0) : Reads m.bytes (v.scan m minia) v.signature.pattern := by
  obtain ⟨i, hi, he⟩ := Site.firstMatch_of_scan_ne_zero h
  have hw := (firstMatch_eq_some.mp hi).2.1
  rw [v.cells_eq, window_map_some] at hw
  rwa [he]

end Bossran
