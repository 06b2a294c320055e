import BossranMenu.Lib.Memory

/-!
# A fragment of 32-bit x86 with its FPU

The machine fetches its instructions from the memory that they act on. `Cpu` is what instructions
act on, `State` adds the instruction pointer. Numbers of the FPU are of a type `F` with the
operations of `X87`; the status and control words of the FPU are left out, and an empty register is
read as `indefinite`.

* `decode_of_reads`: where the code of an instruction stands, it is what is fetched.
* `run_block`: code that does not jump and does not write over itself is executed to its end.
* `run_detour`: a jump to a block that ends in an indirect jump acts like the block, and goes on
  where the second jump leads.
-/

namespace X86

open Memory

abbrev Byte := BitVec 8
abbrev Dword := BitVec 32

/-! ## Registers -/

inductive Reg where
  | eax | ecx | edx | ebx | esp | ebp | esi | edi
  deriving DecidableEq

/-- The number of a register in an instruction. -/
def Reg.bits : Reg → BitVec 3
  | .eax => 0 | .ecx => 1 | .edx => 2 | .ebx => 3 | .esp => 4 | .ebp => 5 | .esi => 6 | .edi => 7

def Reg.ofBits (b : BitVec 3) : Reg :=
  if b = 0 then .eax else if b = 1 then .ecx else if b = 2 then .edx else if b = 3 then .ebx
  else if b = 4 then .esp else if b = 5 then .ebp else if b = 6 then .esi else .edi

/-- The numbers of an FPU. -/
class X87 (F : Type) where
  /-- What an empty register is read as. -/
  indefinite : F
  sqrt : F → F
  sub : F → F → F
  mul : F → F → F
  /-- A single-precision operand. -/
  ofDword : Dword → F
  /-- The number rounded to single precision. -/
  toDword : F → Dword
  sub_zero : ∀ x, sub x (ofDword 0x00000000) = x
  mul_one : ∀ x, mul x (ofDword 0x3F800000) = x

/-- The register stack of the FPU. A register may be empty. -/
structure Fpu (F : Type) where
  top : BitVec 3
  reg : BitVec 3 → Option F

variable {F : Type}

/-- `ST(0)` -/
def Fpu.st0 [X87 F] (f : Fpu F) : F := (f.reg f.top).getD X87.indefinite

def Fpu.setSt0 (f : Fpu F) (x : F) : Fpu F := { f with reg := Function.update f.reg f.top (some x) }

def Fpu.pop (f : Fpu F) : Fpu F := ⟨f.top + 1, Function.update f.reg f.top none⟩

@[simp] theorem Fpu.st0_setSt0 [X87 F] (f : Fpu F) (x : F) : (f.setSt0 x).st0 = x := by
  simp [Fpu.st0, Fpu.setSt0]

@[simp] theorem Fpu.pop_setSt0 (f : Fpu F) (x : F) : (f.setSt0 x).pop = f.pop := by
  simp [Fpu.pop, Fpu.setSt0]

/-- The registers and the memory. -/
structure Cpu (F : Type) where
  gpr : Reg → Dword
  eflags : Dword
  fpu : Fpu F
  mem : Dword → Byte

structure State (F : Type) where
  eip : Dword
  cpu : Cpu F

/-! ## Instructions -/

inductive Instr where
  | fsqrt
  /-- `fsub dword ptr [m]` -/
  | fsub (m : Dword)
  /-- `fmul dword ptr [m]` -/
  | fmul (m : Dword)
  /-- `fstp dword ptr [esp + disp]` -/
  | fstp (disp : Byte)
  /-- `mov dst, src` -/
  | mov (dst src : Reg)
  /-- `jmp rel` -/
  | jmp (rel : Dword)
  /-- `jmp dword ptr [m]` -/
  | jmpMem (m : Dword)
  | nop
  deriving DecidableEq

def Instr.encode : Instr → List Byte
  | .fsqrt => [0xD9, 0xFA]
  | .fsub m => [0xD8, 0x25] ++ wordBytes m
  | .fmul m => [0xD8, 0x0D] ++ wordBytes m
  | .fstp disp => [0xD9, 0x5C, 0x24, disp]
  | .mov dst src => [0x8B, 3#2 ++ dst.bits ++ src.bits]
  | .jmp rel => [0xE9] ++ wordBytes rel
  | .jmpMem m => [0xFF, 0x25] ++ wordBytes m
  | .nop => [0x90]

/-- The length of an instruction. -/
def Instr.size (i : Instr) : Nat := i.encode.length

/-- The code of a block. -/
def code (is : List Instr) : List Byte := is.flatMap Instr.encode

/-- The instruction at `a`. -/
def decode (m : Dword → Byte) (a : Dword) : Option Instr :=
  if m a = 0xD9 then
    if m (a + 1) = 0xFA then some .fsqrt
    else if m (a + 1) = 0x5C ∧ m (a + 2) = 0x24 then some (.fstp (m (a + 3)))
    else none
  else if m a = 0xD8 then
    if m (a + 1) = 0x25 then some (.fsub (readWord m (a + 2)))
    else if m (a + 1) = 0x0D then some (.fmul (readWord m (a + 2)))
    else none
  else if m a = 0x8B then
    if (m (a + 1)).extractLsb' 6 2 = 3 then
      some (.mov (Reg.ofBits ((m (a + 1)).extractLsb' 3 3))
        (Reg.ofBits ((m (a + 1)).extractLsb' 0 3)))
    else none
  else if m a = 0xE9 then some (.jmp (readWord m (a + 1)))
  else if m a = 0xFF then
    if m (a + 1) = 0x25 then some (.jmpMem (readWord m (a + 2))) else none
  else if m a = 0x90 then some .nop
  else none

/-- What an instruction does to the registers and the memory. -/
def Instr.effect [X87 F] (i : Instr) (s : Cpu F) : Cpu F :=
  match i with
  | .fsqrt => { s with fpu := s.fpu.setSt0 (X87.sqrt s.fpu.st0) }
  | .fsub m => { s with fpu := s.fpu.setSt0 (X87.sub s.fpu.st0 (X87.ofDword (readWord s.mem m))) }
  | .fmul m => { s with fpu := s.fpu.setSt0 (X87.mul s.fpu.st0 (X87.ofDword (readWord s.mem m))) }
  | .fstp disp =>
    { s with
      fpu := s.fpu.pop
      mem := store s.mem (s.gpr .esp + disp.signExtend 32) (wordBytes (X87.toDword s.fpu.st0)) }
  | .mov dst src => { s with gpr := Function.update s.gpr dst (s.gpr src) }
  | .jmp _ => s
  | .jmpMem _ => s
  | .nop => s

/-- Where the machine goes on after an instruction at `a`. -/
def Instr.next (i : Instr) (a : Dword) (s : Cpu F) : Dword :=
  match i with
  | .jmp rel => a + BitVec.ofNat 32 i.size + rel
  | .jmpMem m => readWord s.mem m
  | _ => a + BitVec.ofNat 32 i.size

variable [X87 F]

/-- One instruction; `none` if the bytes at `eip` are none of the fragment. -/
def step (s : State F) : Option (State F) :=
  (decode s.cpu.mem s.eip).map fun i => ⟨i.next s.eip s.cpu, i.effect s.cpu⟩

/-- `n` instructions. -/
def run : Nat → State F → Option (State F)
  | 0, s => some s
  | n + 1, s => (step s).bind (run n)

theorem run_add (n k : Nat) (s : State F) : run (n + k) s = (run n s).bind (run k) := by
  induction n generalizing s with
  | zero => rw [Nat.zero_add, run, Option.bind_some]
  | succ n ih =>
    rw [Nat.succ_add, run, run, Option.bind_assoc]
    congr 1
    funext t
    exact ih t

/-! ## Fetching -/

/-- Where the code of an instruction stands, the instruction is fetched. -/
theorem decode_of_reads {m : Dword → Byte} {a : Dword} {i : Instr} (h : Reads m a i.encode) :
    decode m a = some i := by
  have h0 : ∀ {b bs}, Reads m a (b :: bs) → m a = b := fun h => by
    have := h 0 (by simp)
    rwa [BitVec.add_zero] at this
  have h1 : ∀ {b c bs}, Reads m a (b :: c :: bs) → m (a + 1) = c := fun h => h 1 (by simp)
  cases i with
  | fsqrt =>
    simp only [decode, h0 h, h1 h]
    rfl
  | fsub w =>
    have hw : readWord m (a + 2) = w := (reads_append.mp h).2.readWord
    simp only [decode, h0 h, h1 h, hw]
    rfl
  | fmul w =>
    have hw : readWord m (a + 2) = w := (reads_append.mp h).2.readWord
    simp only [decode, h0 h, h1 h, hw]
    rfl
  | fstp disp =>
    have h2 : m (a + 2) = 0x24 := h 2 (by simp [Instr.encode])
    have h3 : m (a + 3) = disp := h 3 (by simp [Instr.encode])
    simp only [decode, h0 h, h1 h, h2, h3]
    rfl
  | mov dst src =>
    simp only [decode, h0 h, h1 h]
    cases dst <;> cases src <;> rfl
  | jmp rel =>
    have hw : readWord m (a + 1) = rel := (reads_append.mp h).2.readWord
    simp only [decode, h0 h, hw]
    rfl
  | jmpMem w =>
    have hw : readWord m (a + 2) = w := (reads_append.mp h).2.readWord
    simp only [decode, h0 h, h1 h, hw]
    rfl
  | nop =>
    simp only [decode, h0 h]
    rfl

theorem step_of_reads {a : Dword} {s : Cpu F} {i : Instr} (h : Reads s.mem a i.encode) :
    step ⟨a, s⟩ = some ⟨i.next a s, i.effect s⟩ := by
  rw [step, decode_of_reads h, Option.map_some]

/-! ## Blocks -/

/-- What a block does to the registers and the memory. -/
def effects (is : List Instr) (s : Cpu F) : Cpu F := is.foldl (fun s i => i.effect s) s

/-- Instructions after which the machine goes on behind them. -/
def Instr.Straight : Instr → Prop
  | .jmp _ | .jmpMem _ => False
  | _ => True

/-- The part of the memory that an instruction writes. -/
def Instr.writes (i : Instr) (s : Cpu F) : Region 32 :=
  match i with
  | .fstp disp => ⟨s.gpr .esp + disp.signExtend 32, 4⟩
  | _ => ⟨0, 0⟩

/-- No instruction of a block writes into `r`. -/
def Undisturbed (r : Region 32) : List Instr → Cpu F → Prop
  | [], _ => True
  | i :: is, s => r.Disjoint (i.writes s) ∧ Undisturbed r is (i.effect s)

omit [X87 F] in
theorem Instr.next_of_straight {i : Instr} (h : i.Straight) (a : Dword) (s : Cpu F) :
    i.next a s = a + BitVec.ofNat 32 i.size := by
  cases i with
  | jmp rel => exact h.elim
  | jmpMem m => exact h.elim
  | _ => rfl

theorem Instr.effect_mem {i : Instr} {s : Cpu F} {x : Dword} (h : x ∉ i.writes s) :
    (i.effect s).mem x = s.mem x := by
  cases i with
  | fstp disp => exact store_of_notMem (by simp) h
  | _ => rfl

theorem effects_mem {r : Region 32} {is : List Instr} {s : Cpu F} (h : Undisturbed r is s) :
    ∀ x ∈ r, (effects is s).mem x = s.mem x := by
  induction is generalizing s with
  | nil => exact fun x _ => rfl
  | cons i is ih =>
    intro x hx
    rw [← Instr.effect_mem (h.1 x hx)]
    exact ih h.2 x hx

/-- Code that does not jump and does not write over itself is executed to its end. -/
theorem run_block {r : Region 32} {is : List Instr} {a : Dword} {s : Cpu F}
    (hcode : Reads s.mem a (code is)) (hr : ∀ x ∈ (⟨a, (code is).length⟩ : Region 32), x ∈ r)
    (hstraight : ∀ i ∈ is, i.Straight) (hw : Undisturbed r is s) :
    run is.length ⟨a, s⟩ = some ⟨a + BitVec.ofNat 32 (code is).length, effects is s⟩ := by
  induction is generalizing a s with
  | nil => simp [run, code, effects]
  | cons i is ih =>
    obtain ⟨hi, his⟩ := reads_append.mp hcode
    have hlen : (code (i :: is)).length = i.size + (code is).length := List.length_append
    have hr' : ∀ x ∈ (⟨a + BitVec.ofNat 32 i.size, (code is).length⟩ : Region 32), x ∈ r :=
      fun x hx => hr x (hlen ▸ Region.mem_of_add hx)
    have hcode' : Reads (i.effect s).mem (a + BitVec.ofNat 32 i.size) (code is) :=
      his.congr fun x hx => Instr.effect_mem (hw.1 x (hr' x hx))
    have hrest := ih hcode' hr' (fun j hj => hstraight j (List.mem_cons_of_mem _ hj)) hw.2
    rw [add_ofNat_add, ← hlen] at hrest
    rw [List.length_cons, run, step_of_reads hi, Option.bind_some,
      Instr.next_of_straight (hstraight i (List.mem_cons_self ..)), hrest]
    rfl

/-- A jump to a block that ends in an indirect jump acts like the block. -/
theorem run_detour {site entry m : Dword} {is : List Instr} {s : Cpu F}
    (hjmp : Reads s.mem site (Instr.jmp (entry - site - 5)).encode)
    (hcode : Reads s.mem entry (code (is ++ [.jmpMem m]))) (hstraight : ∀ i ∈ is, i.Straight)
    (hw : Undisturbed ⟨entry, (code (is ++ [.jmpMem m])).length⟩ is s)
    (hm : Undisturbed ⟨m, 4⟩ is s) :
    run (is.length + 2) ⟨site, s⟩ = some ⟨readWord s.mem m, effects is s⟩ := by
  have hlen : (code (is ++ [.jmpMem m])).length = (code is).length + 6 := by
    simp [code, Instr.encode]
  have htarget : site + BitVec.ofNat 32 (Instr.jmp (entry - site - 5)).size + (entry - site - 5) =
      entry := by
    show site + 5 + (entry - site - 5) = entry
    ring
  have hbody : Reads s.mem entry (code is ++ (Instr.jmpMem m).encode) := by
    simpa [code] using hcode
  obtain ⟨hbody, hlast⟩ := reads_append.mp hbody
  have hlast' : Reads (effects is s).mem (entry + BitVec.ofNat 32 (code is).length)
      (Instr.jmpMem m).encode := by
    refine hlast.congr fun x hx => effects_mem hw x ?_
    rw [hlen]
    exact Region.mem_of_add hx
  have hblock := run_block hbody (fun x hx => Region.mem_of_le hx (by omega)) hstraight hw
  rw [run, step_of_reads hjmp, Option.bind_some, Instr.next, Instr.effect, htarget, run_add,
    hblock, Option.bind_some, run, step_of_reads hlast', Option.bind_some, run, Instr.next,
    Instr.effect, readWord_congr (effects_mem hm)]

end X86
