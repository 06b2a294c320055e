import BossranMenu.Lib.X86
import BossranMenu.Scan.Caving
import Mathlib.Data.Int.Log
import Mathlib.Data.Rat.Floor

/-!
# The code caves (`Scan.h`)

`LRCave` and `AS1Cave` as the instructions they are assembled to. `ScriptCaving` writes a jump to
each over the six bytes at its site, two instructions that the cave executes in their place.

* `run_original`, `run_hooked`: what the two instructions do, and what the jump, the cave and the
  jump back do.
* `cave_transparent`: the two runs end at the same place in the same state, except for the six bytes
  and the number that was stored; with the initial value of the cave's parameter the number is the
  same, too.
-/

namespace Bossran

open Memory X86

/-- The addresses of the variables that the caves use. -/
structure Globals where
  lrval : DWORD
  jmpbacklr : DWORD
  asval1 : DWORD
  jmpbackas1 : DWORD

/-- `LRCave`. -/
def LRCave (g : Globals) : List Instr :=
  [.fsqrt,
    .fsub g.lrval,
    .fstp 0x38,
    .jmpMem g.jmpbacklr]

/-- `AS1Cave`. -/
def AS1Cave (g : Globals) : List Instr :=
  [.mov .ecx .esi,
    .fmul g.asval1,
    .fstp 0x10,
    .jmpMem g.jmpbackas1]

def Cave.body : Cave → Globals → List Instr
  | .LRCave => Bossran.LRCave
  | .AS1Cave => Bossran.AS1Cave

/-- The address of the parameter, `lrval` or `asval1`. -/
def Cave.val : Cave → Globals → DWORD
  | .LRCave => Globals.lrval
  | .AS1Cave => Globals.asval1

/-- The value that the parameter has initially: `0.0f` or `1.0f`. -/
def Cave.initialVal : Cave → DWORD
  | .LRCave => 0x00000000
  | .AS1Cave => 0x3F800000

/-- The address of the variable with the return address. -/
def Cave.jmpback : Cave → Globals → DWORD
  | .LRCave => Globals.jmpbacklr
  | .AS1Cave => Globals.jmpbackas1

def World.jmpback (w : World) : Cave → DWORD
  | .LRCave => w.jmpbacklr
  | .AS1Cave => w.jmpbackas1

/-- The memory with the return address in its variable. -/
def World.image (w : World) (g : Globals) (c : Cave) : DWORD → BYTE :=
  store w.mem.bytes (c.jmpback g) (wordBytes (w.jmpback c))

/-- Where the number is stored. -/
def Cave.slot : Cave → DWORD → DWORD
  | .LRCave, esp => esp + 0x38
  | .AS1Cave, esp => esp + 0x10

/-- The code at the site and in the cave, and the variables of the cave. The linker and the loader
give each of them a place of its own. -/
def Cave.parts (c : Cave) (g : Globals) (site entry : DWORD) : List (Region 32) :=
  [⟨site, 6⟩, ⟨entry, (code (c.body g)).length⟩, ⟨c.val g, 4⟩, ⟨c.jmpback g, 4⟩]

section

variable {F : Type} [X87 F]

/-- The number that the instructions at the site store. -/
def Cave.original : Cave → F → F
  | .LRCave, st0 => X87.sqrt st0
  | .AS1Cave, st0 => st0

/-- The number that the cave stores, with the parameter `val`. -/
def Cave.adjusted : Cave → F → DWORD → F
  | .LRCave, st0, val => X87.sub (X87.sqrt st0) (X87.ofDword val)
  | .AS1Cave, st0, val => X87.mul st0 (X87.ofDword val)

/-- Two states agree, except for the memory in `P`. -/
structure AgreeExcept (P : DWORD → Prop) (s t : State F) : Prop where
  eip : s.eip = t.eip
  gpr : s.cpu.gpr = t.cpu.gpr
  eflags : s.cpu.eflags = t.cpu.eflags
  fpu : s.cpu.fpu = t.cpu.fpu
  mem : ∀ x, ¬ P x → s.cpu.mem x = t.cpu.mem x

/-! ## The two blocks -/

/-- The instructions at the site of a cave. -/
def Cave.siteBlock : Cave → List Instr
  | .LRCave => [.fsqrt, .fstp 0x38]
  | .AS1Cave => [.mov .ecx .esi, .fstp 0x10]

/-- The instructions of a cave before the jump back. -/
def Cave.block (c : Cave) (g : Globals) : List Instr :=
  match c with
  | .LRCave => [.fsqrt, .fsub g.lrval, .fstp 0x38]
  | .AS1Cave => [.mov .ecx .esi, .fmul g.asval1, .fstp 0x10]

theorem Cave.body_eq (c : Cave) (g : Globals) :
    c.body g = c.block g ++ [.jmpMem (c.jmpback g)] := by
  cases c <;> rfl

/-- The signature of a hooked site starts with the six bytes of the two instructions. -/
theorem signature_of_hook {v : Site} {c : Cave} {len : Nat} (h : .hook v c len ∈ cavingStmts) :
    len = 6 ∧ ∃ rest, v.signature.pattern = code c.siteBlock ++ rest := by
  have hcases : (v = .lraddr ∧ c = .LRCave ∧ len = 6) ∨
      (v = .as1addr ∧ c = .AS1Cave ∧ len = 6) := by
    simpa [cavingStmts] using h
  rcases hcases with ⟨rfl, rfl, rfl⟩ | ⟨rfl, rfl, rfl⟩
  · exact ⟨rfl, [0xFF], rfl⟩
  · exact ⟨rfl, [0xE8, 0xE1], rfl⟩

theorem Cave.length_siteBlock (c : Cave) : (code c.siteBlock).length = 6 := by
  cases c <;> rfl

/-- The state after either block, in which the number `x` was stored. -/
def Cave.after (c : Cave) (s : Cpu F) (x : F) : Cpu F where
  gpr := match c with
    | .LRCave => s.gpr
    | .AS1Cave => Function.update s.gpr .ecx (s.gpr .esi)
  eflags := s.eflags
  fpu := s.fpu.pop
  mem := store s.mem (c.slot (s.gpr .esp)) (wordBytes (X87.toDword x))

theorem Cave.effects_siteBlock (c : Cave) (s : Cpu F) :
    effects c.siteBlock s = c.after s (c.original s.fpu.st0) := by
  cases c with
  | LRCave => simp [effects, siteBlock, Instr.effect, after, original, slot]
  | AS1Cave => simp [effects, siteBlock, Instr.effect, after, original, slot]

theorem Cave.effects_block (c : Cave) (g : Globals) (s : Cpu F) :
    effects (c.block g) s = c.after s (c.adjusted s.fpu.st0 (readWord s.mem (c.val g))) := by
  cases c with
  | LRCave => simp [effects, block, Instr.effect, after, adjusted, slot, val]
  | AS1Cave => simp [effects, block, Instr.effect, after, adjusted, slot, val]

theorem Cave.undisturbed_siteBlock {c : Cave} {s : Cpu F} {r : Region 32}
    (h : Region.Disjoint ⟨c.slot (s.gpr .esp), 4⟩ r) : Undisturbed r c.siteBlock s := by
  cases c with
  | LRCave => exact ⟨r.disjoint_empty 0, h.symm, trivial⟩
  | AS1Cave => exact ⟨r.disjoint_empty 0, h.symm, trivial⟩

theorem Cave.undisturbed_block {c : Cave} {g : Globals} {s : Cpu F} {r : Region 32}
    (h : Region.Disjoint ⟨c.slot (s.gpr .esp), 4⟩ r) : Undisturbed r (c.block g) s := by
  cases c with
  | LRCave => exact ⟨r.disjoint_empty 0, r.disjoint_empty 0, h.symm, trivial⟩
  | AS1Cave => exact ⟨r.disjoint_empty 0, r.disjoint_empty 0, h.symm, trivial⟩

/-! ## The two runs -/

/-- The run of the two instructions at a site. -/
theorem run_original {c : Cave} {site : DWORD} {s : Cpu F}
    (hcode : Reads s.mem site (code c.siteBlock))
    (hslot : Region.Disjoint ⟨c.slot (s.gpr .esp), 4⟩ ⟨site, 6⟩) :
    run 2 ⟨site, s⟩ = some ⟨site + 6, c.after s (c.original s.fpu.st0)⟩ := by
  have hstraight : ∀ i ∈ c.siteBlock, i.Straight := by
    cases c <;> simp [Cave.siteBlock, Instr.Straight]
  have hrun := run_block hcode (fun x hx => c.length_siteBlock ▸ hx) hstraight
    (Cave.undisturbed_siteBlock hslot)
  rw [c.length_siteBlock, c.effects_siteBlock] at hrun
  cases c <;> exact hrun

/-- The run from a site with the jump of `script`, through the cave and back. -/
theorem run_hooked {c : Cave} {g : Globals} {site entry : DWORD} {s : Cpu F}
    (hjmp : Reads s.mem site (jumpBytes site entry 6))
    (hcode : Reads s.mem entry (code (c.body g)))
    (hslot : ∀ r ∈ c.parts g site entry, Region.Disjoint ⟨c.slot (s.gpr .esp), 4⟩ r) :
    run 5 ⟨site, s⟩ = some ⟨readWord s.mem (c.jmpback g),
      c.after s (c.adjusted s.fpu.st0 (readWord s.mem (c.val g)))⟩ := by
  have hstraight : ∀ i ∈ c.block g, i.Straight := by
    cases c <;> simp [Cave.block, Instr.Straight]
  have hjmp' : Reads s.mem site ((Instr.jmp (entry - site - 5)).encode ++ [0x90]) := hjmp
  simp only [Cave.parts, List.mem_cons, List.not_mem_nil, or_false, forall_eq_or_imp,
    forall_eq] at hslot
  obtain ⟨-, hentry, -, hback⟩ := hslot
  rw [c.body_eq] at hcode hentry
  have hrun := run_detour (reads_append.mp hjmp').1 hcode hstraight
    (Cave.undisturbed_block hentry) (Cave.undisturbed_block hback)
  rw [c.effects_block] at hrun
  cases c <;> exact hrun

/-! ## The memory after a hook -/

section Hook

variable {c : Cave} {g : Globals} {v : Site} {caves : Cave → DWORD} {w : World} {x : DWORD}

/-- A hook writes the jump. -/
theorem hook_bytes : (w.hook caves v c 6).mem.bytes =
    store w.mem.bytes (w.site v) (jumpBytes (w.site v) (caves c) 6) :=
  script_bytes _ _ _ (by omega) (by omega)

theorem hook_jmpback : (w.hook caves v c 6).jmpback c = w.site v + 6 := by
  cases c <;> rfl

theorem length_jump (a f : DWORD) : (jumpBytes a f 6).length = 6 := length_jumpBytes _ _ (by omega)

theorem hook_bytes_of_notMem (hx : x ∉ (⟨w.site v, 6⟩ : Region 32)) :
    (w.hook caves v c 6).mem.bytes x = w.mem.bytes x := by
  rw [hook_bytes]
  exact store_of_notMem (by simp [length_jump]) (by rwa [length_jump])

/-- Outside the six bytes a hook changes nothing but the return address. -/
theorem hook_image (hx : x ∉ (⟨w.site v, 6⟩ : Region 32)) :
    (w.hook caves v c 6).image g c x = { w.hook caves v c 6 with mem := w.mem }.image g c x := by
  unfold World.image
  rw [store_apply _ _ _ (by simp), store_apply _ _ _ (by simp), hook_bytes_of_notMem hx]
  rfl

theorem hook_reads_jump (h : Region.Disjoint ⟨w.site v, 6⟩ ⟨c.jmpback g, 4⟩) :
    Reads ((w.hook caves v c 6).image g c) (w.site v) (jumpBytes (w.site v) (caves c) 6) := by
  refine Reads.store ?_ (by simp) (by rwa [length_jump])
  rw [hook_bytes]
  exact store_reads _ _ (by simp [length_jump])

/-- What stands apart from the six bytes and the return address stays. -/
theorem hook_reads {a : DWORD} {bs : List BYTE} (h : Reads w.mem.bytes a bs)
    (hs : Region.Disjoint ⟨w.site v, 6⟩ ⟨a, bs.length⟩)
    (hb : Region.Disjoint ⟨a, bs.length⟩ ⟨c.jmpback g, 4⟩) :
    Reads ((w.hook caves v c 6).image g c) a bs :=
  (h.congr fun x hx => hook_bytes_of_notMem (hs.symm x hx)).store (by simp) hb

theorem hook_readWord {a : DWORD} (hs : Region.Disjoint ⟨w.site v, 6⟩ ⟨a, 4⟩)
    (hb : Region.Disjoint ⟨a, 4⟩ ⟨c.jmpback g, 4⟩) :
    readWord ((w.hook caves v c 6).image g c) a = readWord w.mem.bytes a := by
  refine readWord_congr fun x hx => ?_
  rw [World.image, store_of_notMem (by simp) (hb x hx)]
  exact hook_bytes_of_notMem (hs.symm x hx)

theorem hook_readWord_jmpback :
    readWord ((w.hook caves v c 6).image g c) (c.jmpback g) = w.site v + 6 := by
  rw [World.image, readWord_store, hook_jmpback]

end Hook

/-! ## The caves are transparent -/

/-- With the initial value of the parameter the cave stores the original number. -/
theorem Cave.adjusted_initialVal (c : Cave) (x : F) :
    c.adjusted x c.initialVal = c.original x := by
  cases c with
  | LRCave => exact X87.sub_zero _
  | AS1Cave => exact X87.mul_one _

/-- The states after the two blocks agree where the memories before them did, except for the number
that was stored. -/
theorem after_agreeExcept (c : Cave) {s : Cpu F} {m m' : DWORD → BYTE} {site : DWORD}
    (hm : ∀ a, a ∉ (⟨site, 6⟩ : Region 32) → m' a = m a) (eip : DWORD) (x y : F) :
    AgreeExcept (fun a => a ∈ (⟨site, 6⟩ : Region 32) ∨
        a ∈ (⟨c.slot (s.gpr .esp), 4⟩ : Region 32))
      ⟨eip, c.after { s with mem := m' } y⟩ ⟨eip, c.after { s with mem := m } x⟩ where
  eip := rfl
  gpr := rfl
  eflags := rfl
  fpu := rfl
  mem a ha := by
    obtain ⟨hsite, hslot⟩ := not_or.mp ha
    show store m' _ _ a = store m _ _ a
    rw [store_of_notMem (by simp) hslot, store_of_notMem (by simp) hslot, hm a hsite]

/-- If the same number was stored, the states agree there, too. -/
theorem after_agreeExcept_same (c : Cave) {s : Cpu F} {m m' : DWORD → BYTE} {site : DWORD}
    (hm : ∀ a, a ∉ (⟨site, 6⟩ : Region 32) → m' a = m a) (eip : DWORD) (x : F) :
    AgreeExcept (fun a => a ∈ (⟨site, 6⟩ : Region 32))
      ⟨eip, c.after { s with mem := m' } x⟩ ⟨eip, c.after { s with mem := m } x⟩ where
  eip := rfl
  gpr := rfl
  eflags := rfl
  fpu := rfl
  mem a ha := by
    show store m' _ _ a = store m _ _ a
    rw [store_apply _ _ _ (by simp), store_apply _ _ _ (by simp), hm a ha]

variable (minia : Option GameModule) (caves : Cave → DWORD)

/-- For each hook that `ScriptCaving` installs, wherever the signature of its site stands: run from
the site with the jump of `script`, the machine comes to the end of the six bytes, in the state to
which the six bytes lead, except for these and the number that is stored. With the initial value of
the parameter the number is the same, too. -/
theorem cave_transparent {v : Site} {c : Cave} {len : Nat} (hstmt : .hook v c len ∈ cavingStmts)
    (g : Globals) (w : World) (s : Cpu F)
    (hsite : Reads w.mem.bytes (w.site v) v.signature.pattern)
    (hcave : Reads w.mem.bytes (caves c) (code (c.body g)))
    (hapart : (c.parts g (w.site v) (caves c)).Pairwise Region.Disjoint)
    (hslot : ∀ r ∈ c.parts g (w.site v) (caves c),
      Region.Disjoint ⟨c.slot (s.gpr .esp), 4⟩ r) :
    let hooked := CavingStmt.exec minia caves w (.hook v c len)
    let slot := c.slot (s.gpr .esp)
    let val := readWord w.mem.bytes (c.val g)
    ∃ o p : State F,
      run 2 ⟨w.site v, { s with mem := { hooked with mem := w.mem }.image g c }⟩ = some o ∧
      run 5 ⟨w.site v, { s with mem := hooked.image g c }⟩ = some p ∧
      o.eip = w.site v + 6 ∧
      AgreeExcept (fun x => x ∈ (⟨w.site v, 6⟩ : Region 32) ∨ x ∈ (⟨slot, 4⟩ : Region 32)) p o ∧
      readWord o.cpu.mem slot = X87.toDword (c.original s.fpu.st0) ∧
      readWord p.cpu.mem slot = X87.toDword (c.adjusted s.fpu.st0 val) ∧
      (val = c.initialVal → AgreeExcept (fun x => x ∈ (⟨w.site v, 6⟩ : Region 32)) p o) := by
  intro hooked slot val
  obtain ⟨rfl, rest, hpattern⟩ := signature_of_hook hstmt
  simp only [Cave.parts, List.pairwise_cons, List.mem_cons, List.not_mem_nil, or_false,
    forall_eq_or_imp, forall_eq] at hapart
  obtain ⟨⟨hsc, hsv, hsb⟩, ⟨-, hcb⟩, hvb, -⟩ := hapart
  generalize hm : World.image { hooked with mem := w.mem } g c = m
  generalize hm' : hooked.image g c = m'
  have hmm' : ∀ x, x ∉ (⟨w.site v, 6⟩ : Region 32) → m' x = m x := by
    subst hm hm'
    exact fun x hx => hook_image hx
  have horiginal : run 2 ⟨w.site v, { s with mem := m }⟩ =
      some ⟨w.site v + 6, c.after { s with mem := m } (c.original s.fpu.st0)⟩ := by
    refine run_original ?_ (hslot _ (by simp [Cave.parts]))
    subst hm
    rw [hpattern] at hsite
    refine (reads_append.mp hsite).1.store (by simp) ?_
    rw [c.length_siteBlock]
    exact hsb
  have hhooked : run 5 ⟨w.site v, { s with mem := m' }⟩ =
      some ⟨w.site v + 6, c.after { s with mem := m' } (c.adjusted s.fpu.st0 val)⟩ := by
    subst hm'
    have hval : readWord (hooked.image g c) (c.val g) = val := hook_readWord hsv hvb
    have hback : readWord (hooked.image g c) (c.jmpback g) = w.site v + 6 := hook_readWord_jmpback
    rw [← hval, ← hback]
    exact run_hooked (hook_reads_jump hsb) (hook_reads hcave hsc hcb) hslot
  refine ⟨_, _, horiginal, hhooked, rfl, after_agreeExcept c hmm' _ _ _, readWord_store _ _ _,
    readWord_store _ _ _, fun hinit => ?_⟩
  rw [hinit, c.adjusted_initialVal]
  exact after_agreeExcept_same c hmm' _ _

end

/-! ## A machine with rational numbers -/

/-- The value of a finite single-precision number. -/
def ofSingle (d : DWORD) : ℚ :=
  let e := (d.extractLsb' 23 8).toNat
  let m := (d.extractLsb' 0 23).toNat
  let sign : ℚ := if d.msb then -1 else 1
  if e = 0 then sign * m / 2 ^ 149 else sign * (2 ^ 23 + m : Nat) * 2 ^ e / 2 ^ 150

/-- A number cut to single precision, if it is in the range of the normal numbers. -/
def toSingle (x : ℚ) : DWORD :=
  if x = 0 then 0
  else
    let e := Int.log 2 |x|
    let m := (|x| / 2 ^ e * 2 ^ 23).floor.toNat
    (if x < 0 then 1#1 else 0#1) ++ BitVec.ofNat 8 (e + 127).toNat ++ BitVec.ofNat 23 m

instance rationalX87 : X87 ℚ where
  indefinite := 0
  sqrt x := Nat.sqrt x.num.toNat / Nat.sqrt x.den
  sub := (· - ·)
  mul := (· * ·)
  ofDword := ofSingle
  toDword := toSingle
  sub_zero x := by
    have h : ofSingle 0x00000000 = 0 := by decide +kernel
    rw [h]
    ring
  mul_one x := by
    have h : ofSingle 0x3F800000 = 1 := by decide +kernel
    rw [h]
    ring

def sampleGlobals : Globals := ⟨0x10020000, 0x10020004, 0x10020008, 0x1002000C⟩

/-- A process with `LRCave` at `0x10001000`, the signature at `0x00401000`, and 1 in `lrval`. -/
def sampleProcess : World :=
  { World.init
      { bytes := store (store (store (fun _ => 0) 0x00401000 Site.lraddr.signature.pattern)
          0x10001000 (code (LRCave sampleGlobals))) 0x10020000 (wordBytes 0x3F800000)
        protection := fun _ => 0x20 } with
    site := fun _ => 0x00401000 }

/-- Registers with 4 in `ST(0)`. -/
def sampleCpu : Cpu ℚ where
  gpr r := if r = .esp then 0x0019F000 else 0
  eflags := 0x202
  fpu := ⟨7, fun i => if i = 7 then some 4 else none⟩
  mem _ := 0

theorem cave_transparent_sample :
    ∃ p, run 5 ⟨0x00401000, { sampleCpu with
        mem := (CavingStmt.exec none (fun _ => 0x10001000) sampleProcess
          (.hook .lraddr .LRCave 6)).image sampleGlobals .LRCave }⟩ = some p ∧
      readWord p.cpu.mem 0x0019F038 = 0x3F800000 := by
  obtain ⟨o, p, -, hp, -, -, -, hstored, -⟩ :=
    cave_transparent none (fun _ => 0x10001000)
      (show .hook .lraddr .LRCave 6 ∈ cavingStmts by decide) sampleGlobals sampleProcess sampleCpu
      (by decide +kernel) (by decide +kernel) (by decide +kernel) (by decide +kernel)
  refine ⟨p, hp, ?_⟩
  have hone : X87.toDword (Cave.LRCave.adjusted sampleCpu.fpu.st0
      (readWord sampleProcess.mem.bytes (Cave.LRCave.val sampleGlobals))) = 0x3F800000 := by
    decide +kernel
  exact hstored.trans hone

end Bossran
