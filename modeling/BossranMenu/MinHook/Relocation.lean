import BossranMenu.MinHook.Trampoline

/-!
# What the trampoline does (`trampoline.c`)

`Flow` is where an instruction hands control: the meaning of the relative branches, their
destination absolute. `Translation` reads the trampoline instruction by instruction beside the
target.

* `Emits`: what a round writes for an instruction, by its flow. `Emits.moved`: it has the bytes of
  the instruction, or its flow.
* `Laid`: what the rounds have laid down, from one boundary on (`trampolineLoop_laid`). `Stands`:
  what is left of it in a later memory.
* `createTrampolineFunction_translation`: a trampoline that was made has the instructions of its
  target. A jump to one of the first five bytes is copied as it is.
* `createTrampolineFunction_patch`: what the hook will overwrite was copied, or is padding.
-/

namespace Bossran

open Memory

/-- Where an instruction hands control. A `loop` is one of `LOOPNZ`, `LOOPZ`, `LOOP`, `JECXZ`. -/
inductive Flow where
  | other
  | call (dest : DWORD)
  | jmp (dest : DWORD)
  | jcc (cond : BYTE) (dest : DWORD)
  | loop (dest : DWORD)
  deriving DecidableEq

def Flow.dest : Flow → Option DWORD
  | .other => none
  | .call dest | .jmp dest | .jcc _ dest | .loop dest => some dest

/-- The flow of the instruction `hs` at `a`; the displacement is the operand as disassembled. -/
def Hde32s.flow (hs : Hde32s) (a : DWORD) : Flow :=
  let next := a + BitVec.ofNat 32 hs.len
  if hs.opcode = 0xE8 then .call (next + hs.imm)
  else if hs.opcode = 0xEB then .jmp (next + hs.rel8)
  else if hs.opcode = 0xE9 then .jmp (next + hs.imm)
  else if hs.opcode &&& 0xF0 = 0x70 then .jcc (hs.opcode &&& 0x0F) (next + hs.rel8)
  else if hs.opcode &&& 0xFC = 0xE0 then .loop (next + hs.rel8)
  else if hs.opcode = 0x0F ∧ hs.opcode2 &&& 0xF0 = 0x80 then
    .jcc (hs.opcode2 &&& 0x0F) (next + hs.imm)
  else .other

/-- `RET`, with or without an operand. -/
def Hde32s.isRet (hs : Hde32s) : Prop := hs.opcode &&& 0xFE = 0xC2

instance (hs : Hde32s) : Decidable hs.isRet := inferInstanceAs (Decidable (_ = _))

section Translation

variable (m m' : DWORD → BYTE) (pTarget pTrampoline : DWORD)

/-- The instruction at `pNew` in `m'` is a copy of the one at `pOld` in `m`; a branch that was
copied is an internal jump. -/
structure Copied (pOld pNew : DWORD) : Prop where
  bytes : Reads m' pNew (copyInst m pOld (disasm m pOld))
  same : disasm m' pNew = disasm m pOld
  dest : ∀ d, ((disasm m pOld).flow pOld).dest = some d → internal pTarget d
  call : ∀ d, (disasm m pOld).flow pOld ≠ .call d

/-- The branch at `pNew` in `m'` hands control where the one at `pOld` in `m` does. A jump goes out
of the bytes that the hook will overwrite. -/
structure Relocated (pOld pNew : DWORD) : Prop where
  flow : (disasm m' pNew).flow pNew = (disasm m pOld).flow pOld
  branch : (disasm m pOld).flow pOld ≠ .other
  loop : ∀ d, (disasm m pOld).flow pOld ≠ .loop d
  jmp : ∀ d, (disasm m pOld).flow pOld = .jmp d → ¬ internal pTarget d
  jcc : ∀ c d, (disasm m pOld).flow pOld = .jcc c d → ¬ internal pTarget d

/-- The instructions of the target from the offset `o` on and those of the trampoline from `n` on;
the last list is what is left of `oldIPs` and `newIPs`. -/
inductive Translation : Nat → Nat → List (Nat × Nat) → Prop
  /-- Enough was copied: back to the target. -/
  | back {o n : Nat} : sizeofJmpRel ≤ o →
    (disasm m' (pTrampoline + BitVec.ofNat 32 n)).flow (pTrampoline + BitVec.ofNat 32 n) =
      .jmp (pTarget + BitVec.ofNat 32 o) → Translation o n [(o, n)]
  /-- The function ends. -/
  | last {o n : Nat} : o < sizeofJmpRel →
    Copied m m' pTarget (pTarget + BitVec.ofNat 32 o) (pTrampoline + BitVec.ofNat 32 n) ∨
      Relocated m m' pTarget (pTarget + BitVec.ofNat 32 o) (pTrampoline + BitVec.ofNat 32 n) →
    (disasm m (pTarget + BitVec.ofNat 32 o)).isRet ∨ (∃ d, (disasm m
      (pTarget + BitVec.ofNat 32 o)).flow (pTarget + BitVec.ofNat 32 o) = .jmp d) →
    Translation o n [(o, n)]
  | inst {o n : Nat} {ips : List (Nat × Nat)} : o < sizeofJmpRel →
    Copied m m' pTarget (pTarget + BitVec.ofNat 32 o) (pTrampoline + BitVec.ofNat 32 n) ∨
      Relocated m m' pTarget (pTarget + BitVec.ofNat 32 o) (pTrampoline + BitVec.ofNat 32 n) →
    Translation (o + (disasm m (pTarget + BitVec.ofNat 32 o)).len)
      (n + (disasm m' (pTrampoline + BitVec.ofNat 32 n)).len) ips →
    Translation o n ((o, n) :: ips)

end Translation

/-! ## What is written -/

@[simp] theorem length_jmpRel (c : BYTE) (v : DWORD) : (jmpRel c v).length = 5 := rfl

@[simp] theorem length_jccRel (c : BYTE) (v : DWORD) : (jccRel c v).length = 6 := rfl

@[simp] theorem length_copyInst (m : DWORD → BYTE) (a : DWORD) (hs : Hde32s) :
    (copyInst m a hs).length = hs.len := length_load m a hs.len

variable {m m' : DWORD → BYTE} {a : DWORD}

/-- The operand of a branch that was written. -/
theorem rel32_codeAt {i : Nat} {v : DWORD} (h : Reads m (a + BitVec.ofNat 32 i) (wordBytes v)) :
    Hde32.rel32 (codeAt m a) i = v := by
  have hk : ∀ k < 4, codeAt m a (i + k) = m (a + BitVec.ofNat 32 i + BitVec.ofNat 32 k) := by
    intro k _
    rw [codeAt, add_ofNat_add]
  have h0 : codeAt m a i = m (a + BitVec.ofNat 32 i) := rfl
  unfold Hde32.rel32
  rw [hk 1 (by omega), hk 2 (by omega), hk 3 (by omega), h0]
  exact h.readWord

/-- A `JMP` or `CALL` that was written is disassembled. -/
theorem disasm_jmpRel {c : BYTE} {v : DWORD} (hc : c = 0xE8 ∨ c = 0xE9)
    (h : Reads m a (jmpRel c v)) : disasm m a =
      { len := 5, opcode := c, imm := v, flags := Hde32.F_IMM32 ||| Hde32.F_RELATIVE } := by
  have h0 : codeAt m a 0 = c := h 0 (by simp)
  have hv : Hde32.rel32 (codeAt m a) 1 = v :=
    rel32_codeAt ((@reads_append 32 BYTE m a [c] _).mp h).2
  rw [disasm, hde32_disasm_rel32 h0 hc, hv]

/-- A `Jcc` that was written is disassembled. -/
theorem disasm_jccRel {c : BYTE} {v : DWORD} (hc : c &&& 0xf0 = 0x80) (h : Reads m a (jccRel c v)) :
    disasm m a =
      { len := 6, opcode := 0x0f, opcode2 := c, imm := v,
        flags := Hde32.F_IMM32 ||| Hde32.F_RELATIVE } := by
  have h0 : codeAt m a 0 = 0x0f := h 0 (by simp)
  have h1 : codeAt m a 1 = c := h 1 (by simp)
  have hv : Hde32.rel32 (codeAt m a) 2 = v :=
    rel32_codeAt ((@reads_append 32 BYTE m a [0x0f, c] _).mp h).2
  rw [disasm, hde32_disasm_jcc h0 h1 hc, hv]

/-! ## One instruction -/

section Emit

variable {pTarget pOldInst pNewInst jmpDest : DWORD} {hs : Hde32s} {e : Emit}

/-- A `JMP` or `CALL` to `dest` that was written goes to `dest`. -/
theorem flow_jmpRel {dest : DWORD} (h : Reads m' pNewInst (jmpRel 0xE9 (dest - (pNewInst + 5)))) :
    (disasm m' pNewInst).flow pNewInst = .jmp dest ∧ (disasm m' pNewInst).len = 5 := by
  rw [disasm_jmpRel (.inr rfl) h]
  simp [Hde32s.flow]

theorem flow_callRel {dest : DWORD} (h : Reads m' pNewInst (jmpRel 0xE8 (dest - (pNewInst + 5)))) :
    (disasm m' pNewInst).flow pNewInst = .call dest ∧ (disasm m' pNewInst).len = 5 := by
  rw [disasm_jmpRel (.inl rfl) h]
  simp [Hde32s.flow]

theorem cond_bits : ∀ c : BYTE, (0x80 ||| (c &&& 0x0F)) &&& 0xF0 = 0x80 ∧
    (0x80 ||| (c &&& 0x0F)) &&& 0x0F = c &&& 0x0F := by
  decide +kernel

theorem flow_jccRel {c : BYTE} {dest : DWORD} (hc : c &&& 0xF0 = 0x80)
    (h : Reads m' pNewInst (jccRel c (dest - (pNewInst + 6)))) :
    (disasm m' pNewInst).flow pNewInst = .jcc (c &&& 0x0F) dest ∧
      (disasm m' pNewInst).len = 6 := by
  rw [disasm_jccRel hc h]
  have h80 : c &&& 240#8 = 128#8 := hc
  simp [Hde32s.flow, h80]

/-- What `emitInst` does with an instruction, by its flow. -/
inductive Emits (m : DWORD → BYTE) (pTarget pOldInst pNewInst jmpDest : DWORD) (hs : Hde32s) :
    Emit → Prop
  | call {dest : DWORD} : hs.flow pOldInst = .call dest →
    Emits m pTarget pOldInst pNewInst jmpDest hs
      ⟨jmpRel 0xE8 (dest - (pNewInst + 5)), jmpDest, false⟩
  | internal {dest : DWORD} : (hs.flow pOldInst).dest = some dest → internal pTarget dest →
    (∀ d, hs.flow pOldInst ≠ .call d) →
    Emits m pTarget pOldInst pNewInst jmpDest hs (emitInternal m pOldInst jmpDest hs dest)
  | jmp {dest : DWORD} : hs.flow pOldInst = .jmp dest → ¬ Bossran.internal pTarget dest →
    Emits m pTarget pOldInst pNewInst jmpDest hs
      ⟨jmpRel 0xE9 (dest - (pNewInst + 5)), jmpDest, jmpDest ≤ pOldInst⟩
  | jcc {c : BYTE} {dest : DWORD} : hs.flow pOldInst = .jcc (c &&& 0x0F) dest →
    ¬ Bossran.internal pTarget dest → Emits m pTarget pOldInst pNewInst jmpDest hs
      ⟨jccRel (0x80 ||| (c &&& 0x0F)) (dest - (pNewInst + 6)), jmpDest, false⟩
  | other {finished : Bool} : hs.flow pOldInst = .other → (finished → hs.isRet) →
    Emits m pTarget pOldInst pNewInst jmpDest hs ⟨copyInst m pOldInst hs, jmpDest, finished⟩

theorem jmp_opcode : ∀ c : BYTE, c &&& 0xFD = 0xE9 ↔ c = 0xEB ∨ c = 0xE9 := by decide +kernel

theorem jcc_opcode : ∀ c : BYTE, c &&& 0xF0 = 0x70 → c ≠ 0x0F ∧ c &&& 0xFC ≠ 0xE0 := by
  decide +kernel

theorem emitInst_cases (hop : hs.opcode2 ≠ 0 → hs.opcode = 0x0F)
    (h : emitInst m pTarget pOldInst pNewInst jmpDest hs = some e) :
    Emits m pTarget pOldInst pNewInst jmpDest hs e := by
  unfold emitInst at h
  by_cases hcall : hs.opcode = 0xE8
  · simp only [hcall, if_true, Option.some.injEq] at h
    exact h ▸ .call (by simp [Hde32s.flow, hcall])
  rw [if_neg hcall] at h
  by_cases hjmp : hs.opcode &&& 0xFD = 0xE9
  · -- `JMP`, short or near
    rw [if_pos hjmp] at h
    have hflow : ∃ dest, hs.flow pOldInst = .jmp dest ∧ (if hs.opcode = 0xEB then
        pOldInst + BitVec.ofNat 32 hs.len + hs.rel8 else
        pOldInst + BitVec.ofNat 32 hs.len + hs.imm) = dest := by
      rcases (jmp_opcode _).mp hjmp with hEB | hE9
      · exact ⟨_, by rw [Hde32s.flow, if_neg hcall, if_pos hEB], if_pos hEB⟩
      · have hEB : hs.opcode ≠ 0xEB := by rw [hE9]; decide
        exact ⟨_, by rw [Hde32s.flow, if_neg hcall, if_neg hEB, if_pos hE9], if_neg hEB⟩
    obtain ⟨dest, hflow, hdest⟩ := hflow
    dsimp only at h
    rw [hdest] at h
    split at h
    · rename_i hin
      exact (Option.some.inj h) ▸ .internal (by rw [hflow]; rfl) hin (by rw [hflow]; nofun)
    · rename_i hout
      exact (Option.some.inj h) ▸ .jmp hflow hout
  rw [if_neg hjmp] at h
  have hEB : hs.opcode ≠ 0xEB := fun h => hjmp ((jmp_opcode _).mpr (.inl h))
  have hE9 : hs.opcode ≠ 0xE9 := fun h => hjmp ((jmp_opcode _).mpr (.inr h))
  by_cases hjcc : hs.opcode &&& 0xF0 = 0x70 ∨ hs.opcode &&& 0xFC = 0xE0 ∨
      hs.opcode2 &&& 0xF0 = 0x80
  · -- a conditional branch
    rw [if_pos hjcc] at h
    dsimp only at h
    by_cases h70 : hs.opcode &&& 0xF0 = 0x70
    · obtain ⟨h0F, hE0⟩ := jcc_opcode _ h70
      have hflow : hs.flow pOldInst = .jcc (hs.opcode &&& 0x0F)
          (pOldInst + BitVec.ofNat 32 hs.len + hs.rel8) := by
        rw [Hde32s.flow, if_neg hcall, if_neg hEB, if_neg hE9, if_pos h70]
      rw [if_pos (Or.inl h70), if_neg hE0, if_pos h0F] at h
      split at h
      · rename_i hin
        exact (Option.some.inj h) ▸ .internal (by rw [hflow]; rfl) hin (by rw [hflow]; nofun)
      · rename_i hout
        exact (Option.some.inj h) ▸ .jcc hflow hout
    by_cases hE0 : hs.opcode &&& 0xFC = 0xE0
    · have hflow : hs.flow pOldInst = .loop (pOldInst + BitVec.ofNat 32 hs.len + hs.rel8) := by
        rw [Hde32s.flow, if_neg hcall, if_neg hEB, if_neg hE9, if_neg h70, if_pos hE0]
      rw [if_pos (Or.inr hE0), if_pos hE0] at h
      split at h
      · rename_i hin
        exact (Option.some.inj h) ▸ .internal (by rw [hflow]; rfl) hin (by rw [hflow]; nofun)
      · cases h
    · have h80 := (hjcc.resolve_left h70).resolve_left hE0
      have h0F : hs.opcode = 0x0F := hop fun h0 => by rw [h0] at h80; exact absurd h80 (by decide)
      have hflow : hs.flow pOldInst = .jcc (hs.opcode2 &&& 0x0F)
          (pOldInst + BitVec.ofNat 32 hs.len + hs.imm) := by
        rw [Hde32s.flow, if_neg hcall, if_neg hEB, if_neg hE9, if_neg h70, if_neg hE0,
          if_pos ⟨h0F, h80⟩]
      rw [if_neg (not_or.mpr ⟨h70, hE0⟩), if_neg hE0, if_neg (not_not.mpr h0F)] at h
      split at h
      · rename_i hin
        exact (Option.some.inj h) ▸ .internal (by rw [hflow]; rfl) hin (by rw [hflow]; nofun)
      · rename_i hout
        exact (Option.some.inj h) ▸ .jcc hflow hout
  rw [if_neg hjcc] at h
  have hother : hs.flow pOldInst = .other := by
    rw [Hde32s.flow]
    simp only [not_or] at hjcc
    rw [if_neg hcall, if_neg hEB, if_neg hE9, if_neg hjcc.1, if_neg hjcc.2.1,
      if_neg fun h => hjcc.2.2 h.2]
  split at h
  · rename_i hret
    exact (Option.some.inj h) ▸ .other hother fun _ => hret
  · exact (Option.some.inj h) ▸ .other hother fun hf => nomatch hf

/-- What is written has the flow of the instruction, or its bytes. -/
theorem Emits.moved {m₀ : DWORD → BYTE}
    (h : Emits m pTarget pOldInst pNewInst jmpDest (disasm m₀ pOldInst) e)
    (hm : copyInst m pOldInst (disasm m₀ pOldInst) = copyInst m₀ pOldInst (disasm m₀ pOldInst))
    (hok : (disasm m₀ pOldInst).flags &&& Hde32.F_ERROR = 0) (hr : Reads m' pNewInst e.copySrc) :
    (Copied m₀ m' pTarget pOldInst pNewInst ∨ Relocated m₀ m' pTarget pOldInst pNewInst) ∧
      (disasm m' pNewInst).len = e.copySrc.length := by
  have hcopy : Reads m' pNewInst (copyInst m pOldInst (disasm m₀ pOldInst)) →
      Reads m' pNewInst (copyInst m₀ pOldInst (disasm m₀ pOldInst)) ∧
        disasm m' pNewInst = disasm m₀ pOldInst := by
    intro hr
    rw [hm] at hr
    refine ⟨hr, hde32_disasm_congr hok fun j hj => ?_⟩
    rw [codeAt, hr j (by rw [length_copyInst]; exact hj)]
    exact getElem_load ..
  cases h with
  | call hflow =>
    obtain ⟨hnew, hlen⟩ := flow_callRel hr
    exact ⟨.inr ⟨hnew.trans hflow.symm, by rw [hflow]; nofun, by rw [hflow]; nofun,
      by rw [hflow]; nofun, by rw [hflow]; nofun⟩, hlen⟩
  | internal hdest hin hcall =>
    obtain ⟨hbytes, hsame⟩ := hcopy hr
    refine ⟨.inl ⟨hbytes, hsame, fun d hd => ?_, hcall⟩,
      by rw [hsame]; exact (length_copyInst ..).symm⟩
    exact Option.some.inj (hdest.symm.trans hd) ▸ hin
  | jmp hflow hout =>
    obtain ⟨hnew, hlen⟩ := flow_jmpRel hr
    refine ⟨.inr ⟨hnew.trans hflow.symm, by rw [hflow]; nofun, by rw [hflow]; nofun, fun d hd => ?_,
      by rw [hflow]; nofun⟩, hlen⟩
    obtain rfl := Flow.jmp.inj (hflow.symm.trans hd)
    exact hout
  | jcc hflow hout =>
    obtain ⟨hhigh, hlow⟩ := cond_bits _
    obtain ⟨hnew, hlen⟩ := flow_jccRel hhigh hr
    rw [hlow] at hnew
    refine ⟨.inr ⟨hnew.trans hflow.symm, by rw [hflow]; nofun, by rw [hflow]; nofun,
      by rw [hflow]; nofun, fun c d hd => ?_⟩, hlen⟩
    obtain ⟨-, rfl⟩ := Flow.jcc.inj (hflow.symm.trans hd)
    exact hout
  | other hflow _ =>
    obtain ⟨hbytes, hsame⟩ := hcopy hr
    refine ⟨.inl ⟨hbytes, hsame, fun d hd => ?_, by rw [hflow]; nofun⟩,
      by rw [hsame]; exact (length_copyInst ..).symm⟩
    rw [hflow] at hd
    cases hd

/-- The loop ends behind an instruction that does not fall through. -/
theorem Emits.ends (h : Emits m pTarget pOldInst pNewInst jmpDest hs e) (hf : e.finished) :
    hs.isRet ∨ ∃ d, hs.flow pOldInst = .jmp d := by
  cases h with
  | call _ => cases hf
  | internal _ _ _ => cases hf
  | jmp hflow _ => exact .inr ⟨_, hflow⟩
  | jcc _ _ => cases hf
  | other _ hret => exact .inl (hret hf)

theorem Emits.jmpDest_le (h : Emits m pTarget pOldInst pNewInst jmpDest hs e) :
    jmpDest ≤ e.jmpDest := by
  cases h with
  | internal _ _ _ =>
    unfold emitInternal
    dsimp only
    split
    · exact BitVec.le_of_lt ‹_›
    · exact BitVec.le_refl _
  | _ => exact BitVec.le_refl _

end Emit

/-! ## One round -/

section CopyRound

variable {m₀ : DWORD → BYTE} {pTarget pTrampoline : DWORD} {s s' : TrampolineState}

/-- The code that the library reads of a target: the padding in front of it, the instructions that it
copies, and the address behind them. They begin in the first five bytes, and have at most fifteen
bytes each. -/
abbrev targetCode (pTarget : DWORD) : Region 32 := ⟨pTarget - 5, 25⟩

theorem mem_target {k : Nat} (h : k < 20) : pTarget + BitVec.ofNat 32 k ∈ targetCode pTarget := by
  have hfive : pTarget + BitVec.ofNat 32 k = pTarget - 5 + BitVec.ofNat 32 (5 + k) := by
    rw [← add_ofNat_add]
    exact congrArg (· + BitVec.ofNat 32 k) (BitVec.sub_add_cancel pTarget 5).symm
  rw [hfive]
  exact Region.add_mem (r := targetCode pTarget) (by dsimp only; omega)

theorem mem_targetCode {x : DWORD} {n : Nat} (hn : n ≤ 20)
    (hx : x ∈ (⟨pTarget, n⟩ : Region 32)) : x ∈ targetCode pTarget := by
  obtain ⟨k, hk, rfl⟩ := Region.mem_iff_exists.mp hx
  exact mem_target (Nat.lt_of_lt_of_le hk hn)

theorem mem_instruction {o j : Nat} (ho : o < sizeofJmpRel) (hj : j < 15) :
    pTarget + BitVec.ofNat 32 o + BitVec.ofNat 32 j ∈ targetCode pTarget := by
  rw [sizeofJmpRel] at ho
  rw [add_ofNat_add]
  exact mem_target (by omega)

/-- A round that copied `e`, where the code of the target is that of `m₀`. -/
structure CopyRound (m₀ : DWORD → BYTE) (pTarget pTrampoline : DWORD) (s s' : TrampolineState)
    (e : Emit) : Prop where
  ok : s.oldPos < sizeofJmpRel →
    (disasm m₀ (pTarget + BitVec.ofNat 32 s.oldPos)).flags &&& Hde32.F_ERROR = 0
  emit : (sizeofJmpRel ≤ s.oldPos ∧ e = ⟨jmpRel 0xE9 (pTarget + BitVec.ofNat 32 s.oldPos -
      (pTrampoline + BitVec.ofNat 32 s.newPos + 5)), s.jmpDest, true⟩) ∨
    (s.oldPos < sizeofJmpRel ∧ Emits s.bytes pTarget (pTarget + BitVec.ofNat 32 s.oldPos)
      (pTrampoline + BitVec.ofNat 32 s.newPos) s.jmpDest
      (disasm m₀ (pTarget + BitVec.ofNat 32 s.oldPos)) e)
  branch : s.oldPos < sizeofJmpRel → pTarget + BitVec.ofNat 32 s.oldPos < e.jmpDest →
    e.copySrc.length = (disasm m₀ (pTarget + BitVec.ofNat 32 s.oldPos)).len
  size : s.newPos + e.copySrc.length ≤ TRAMPOLINE_MAX_SIZE
  bytes_eq : s'.bytes = store s.bytes (pTrampoline + BitVec.ofNat 32 s.newPos) e.copySrc
  oldPos_eq : s.oldPos < sizeofJmpRel →
    s'.oldPos = s.oldPos + (disasm m₀ (pTarget + BitVec.ofNat 32 s.oldPos)).len
  newPos_eq : s'.newPos = s.newPos + e.copySrc.length
  jmpDest_eq : s'.jmpDest = e.jmpDest
  ips_eq : s'.ips = s.ips ++ [(s.oldPos, s.newPos)]

theorem trampolineRound_cases (hm : ∀ x ∈ targetCode pTarget, s.bytes x = m₀ x) {finished : Bool}
    (h : trampolineRound pTarget pTrampoline s = some (s', finished)) :
    ∃ e, CopyRound m₀ pTarget pTrampoline s s' e ∧ e.finished = finished := by
  unfold trampolineRound at h
  dsimp only at h
  split at h
  · cases h
  rename_i hok
  obtain ⟨e, he, h⟩ := Option.bind_eq_some_iff.mp h
  split at h
  · cases h
  rename_i hbranch
  split at h
  · cases h
  rename_i hsize
  split at h
  · cases h
  obtain ⟨rfl, rfl⟩ := Prod.mk.inj (Option.some.inj h)
  have hok' := not_not.mp hok
  -- an instruction that is copied is read within the code
  have hdis : s.oldPos < sizeofJmpRel → disasm m₀ (pTarget + BitVec.ofNat 32 s.oldPos) =
      disasm s.bytes (pTarget + BitVec.ofNat 32 s.oldPos) := by
    intro hlt
    have hlen : (disasm s.bytes (pTarget + BitVec.ofNat 32 s.oldPos)).len ≤ 15 :=
      hde32_disasm_len_le _
    refine hde32_disasm_congr hok' fun j hj => (hm _ (mem_instruction hlt ?_)).symm
    exact Nat.lt_of_lt_of_le hj hlen
  refine ⟨e, ⟨fun hlt => ?_, ?_, fun hlt hbelow => ?_, Nat.not_lt.mp hsize, rfl, fun hlt => ?_, rfl,
    rfl, rfl⟩, rfl⟩
  · rw [hdis hlt]
    exact hok'
  · split at he
    · rename_i hlong
      exact .inl ⟨hlong, (Option.some.inj he).symm⟩
    · rename_i hshort
      have hlt := Nat.not_le.mp hshort
      rw [hdis hlt]
      exact .inr ⟨hlt, emitInst_cases hde32_disasm_opcode2 he⟩
  · rw [hdis hlt]
    exact not_not.mp fun hne => hbranch ⟨hbelow, hne⟩
  · rw [hdis hlt]

variable {e : Emit}

theorem CopyRound.length_pos (hr : CopyRound m₀ pTarget pTrampoline s s' e) :
    0 < e.copySrc.length := by
  obtain ⟨-, rfl⟩ | ⟨-, he⟩ := hr.emit
  · exact Nat.zero_lt_succ _
  have hlen : 0 < (copyInst s.bytes (pTarget + BitVec.ofNat 32 s.oldPos)
      (disasm m₀ (pTarget + BitVec.ofNat 32 s.oldPos))).length := by
    rw [length_copyInst]
    exact hde32_disasm_len_pos _
  cases he with
  | internal _ _ _ => exact hlen
  | other _ _ => exact hlen
  | _ => exact Nat.zero_lt_succ _

/-- The instruction at the offset `o` is a jump to the offset `k`. -/
def branchTo (m₀ : DWORD → BYTE) (pTarget : DWORD) (o k : Nat) : Prop :=
  ((disasm m₀ (pTarget + BitVec.ofNat 32 o)).flow (pTarget + BitVec.ofNat 32 o)).dest =
    some (pTarget + BitVec.ofNat 32 k) ∧
  (disasm m₀ (pTarget + BitVec.ofNat 32 o)).flow (pTarget + BitVec.ofNat 32 o) ≠
    .call (pTarget + BitVec.ofNat 32 k)

instance (m₀ : DWORD → BYTE) (pTarget : DWORD) (o k : Nat) : Decidable (branchTo m₀ pTarget o k) :=
  inferInstanceAs (Decidable (_ ∧ _))

/-- A jump forward to a boundary finds the trampoline as far ahead. -/
def ForwardKept (m₀ : DWORD → BYTE) (pTarget : DWORD) (ips : List (Nat × Nat)) : Prop :=
  ∀ p ∈ ips, ∀ q ∈ ips, p.1 < q.1 → q.1 < sizeofJmpRel → branchTo m₀ pTarget p.1 q.1 →
    q.2 + p.1 = q.1 + p.2

/-- What the rounds from `s` to the end `s'` of the loop have laid down: `ips` is what they have
added to the boundaries. -/
structure Laid (m₀ : DWORD → BYTE) (pTarget pTrampoline : DWORD) (s s' : TrampolineState)
    (ips : List (Nat × Nat)) : Prop where
  ips_eq : s'.ips = s.ips ++ ips
  /-- As long as the bytes stand there. -/
  translation : ∀ m, (∀ x ∈ (⟨pTrampoline + BitVec.ofNat 32 s.newPos, 32 - s.newPos⟩ : Region 32),
    m x = s'.bytes x) → Translation m₀ m pTarget pTrampoline s.oldPos s.newPos ips
  frame : ∀ x, x ∉ (⟨pTrampoline + BitVec.ofNat 32 s.newPos, 32 - s.newPos⟩ : Region 32) →
    s'.bytes x = s.bytes x
  cover : ∀ k < sizeofJmpRel, s.oldPos ≤ k → k < s'.oldPos → ∃ p ∈ ips, p.1 ≤ k ∧
    k < p.1 + (disasm m₀ (pTarget + BitVec.ofNat 32 p.1)).len
  le : ∀ p ∈ ips, s.oldPos ≤ p.1 ∧ s.newPos ≤ p.2 ∧ p.2 < 32
  sorted : ips.Pairwise fun p q => p.1 < q.1 ∧ p.2 < q.2
  /-- No instruction changes its length in front of the farthest destination. -/
  forward : pTarget.toNat + 5 ≤ 2 ^ 32 → ∀ p ∈ ips, p.1 < 5 →
    pTarget + BitVec.ofNat 32 p.1 ≤ s.jmpDest → p.2 + s.oldPos = p.1 + s.newPos
  branches : pTarget.toNat + 5 < 2 ^ 32 → ForwardKept m₀ pTarget ips

/-- What a round wrote, as long as it stands there. -/
theorem CopyRound.moved (hr : CopyRound m₀ pTarget pTrampoline s s' e)
    (hm : ∀ x ∈ targetCode pTarget, s.bytes x = m₀ x) (ho : s.oldPos < sizeofJmpRel)
    {m' : DWORD → BYTE}
    (hreads : Reads m' (pTrampoline + BitVec.ofNat 32 s.newPos) e.copySrc) :
    (Copied m₀ m' pTarget (pTarget + BitVec.ofNat 32 s.oldPos)
        (pTrampoline + BitVec.ofNat 32 s.newPos) ∨
      Relocated m₀ m' pTarget (pTarget + BitVec.ofNat 32 s.oldPos)
        (pTrampoline + BitVec.ofNat 32 s.newPos)) ∧
      (disasm m' (pTrampoline + BitVec.ofNat 32 s.newPos)).len = e.copySrc.length := by
  obtain ⟨hlong, -⟩ | ⟨-, he⟩ := hr.emit
  · omega
  refine he.moved (load_congr fun x hx => ?_) (hr.ok ho) hreads
  obtain ⟨j, hj, rfl⟩ := Region.mem_iff_exists.mp hx
  exact hm _ (mem_instruction ho (Nat.lt_of_lt_of_le hj (hde32_disasm_len_le _)))

theorem CopyRound.laid_last (hr : CopyRound m₀ pTarget pTrampoline s s' e)
    (hm : ∀ x ∈ targetCode pTarget, s.bytes x = m₀ x) (hf : e.finished) :
    Laid m₀ pTarget pTrampoline s s' [(s.oldPos, s.newPos)] := by
  have hsize := hr.size
  have hpos := hr.length_pos
  rw [TRAMPOLINE_MAX_SIZE] at hsize
  have hwritten : Reads s'.bytes (pTrampoline + BitVec.ofNat 32 s.newPos) e.copySrc := by
    rw [hr.bytes_eq]
    exact store_reads _ _ (by omega)
  constructor
  case ips_eq => exact hr.ips_eq
  case translation =>
    intro m hsame
    have hreads := hwritten.congr fun x hx => hsame x (Region.mem_of_le hx (by omega))
    obtain ⟨hlong, rfl⟩ | ⟨hshort, he⟩ := hr.emit
    · exact .back hlong (flow_jmpRel hreads).1
    · exact .last hshort (hr.moved hm hshort hreads).1 (he.ends hf)
  case frame =>
    intro x hx
    rw [hr.bytes_eq]
    exact store_of_notMem (by omega) fun hmem => hx (Region.mem_of_le hmem (by omega))
  case cover =>
    intro k hk5 hk hk'
    rw [hr.oldPos_eq (Nat.lt_of_le_of_lt hk hk5)] at hk'
    exact ⟨_, List.mem_singleton_self _, hk, hk'⟩
  case le =>
    intro p hp
    rw [List.mem_singleton.mp hp]
    exact ⟨Nat.le_refl _, Nat.le_refl _, by omega⟩
  case sorted => exact List.pairwise_singleton _ _
  case forward =>
    intro _ p hp _ _
    rw [List.mem_singleton.mp hp]
    exact Nat.add_comm _ _
  case branches =>
    intro _ p hp q hq hlt
    rw [List.mem_singleton.mp hp, List.mem_singleton.mp hq] at hlt
    exact absurd hlt (Nat.lt_irrefl _)

theorem toNat_target {k : Nat} (hw : pTarget.toNat + 5 ≤ 2 ^ 32) (hk : k < 5) :
    (pTarget + BitVec.ofNat 32 k).toNat = pTarget.toNat + k := by
  rw [BitVec.toNat_add, BitVec.toNat_ofNat, Nat.mod_eq_of_lt (by omega : k < 2 ^ 32),
    Nat.mod_eq_of_lt (by omega)]

theorem internal_target {k : Nat} (hw : pTarget.toNat + 5 < 2 ^ 32) (hk : k < 5) :
    internal pTarget (pTarget + BitVec.ofNat 32 k) := by
  have hk' := toNat_target (by omega : pTarget.toNat + 5 ≤ 2 ^ 32) hk
  have h5 : (pTarget + 5).toNat = pTarget.toNat + 5 := by
    rw [BitVec.toNat_add]
    exact Nat.mod_eq_of_lt hw
  simp only [internal, Bool.and_eq_true, decide_eq_true_eq, BitVec.le_def, BitVec.lt_def]
  omega

/-- A branch within the five bytes is copied, and its destination is remembered. -/
theorem CopyRound.branch_copied (hr : CopyRound m₀ pTarget pTrampoline s s' e)
    (hw : pTarget.toNat + 5 < 2 ^ 32) (ho : s.oldPos < sizeofJmpRel) {k : Nat} (hk : k < 5)
    (hb : branchTo m₀ pTarget s.oldPos k) :
    e.copySrc.length = (disasm m₀ (pTarget + BitVec.ofNat 32 s.oldPos)).len ∧
      pTarget + BitVec.ofNat 32 k ≤ e.jmpDest := by
  obtain ⟨hlong, -⟩ | ⟨-, he⟩ := hr.emit
  · omega
  obtain ⟨hdest, hcall⟩ := hb
  have hin := internal_target hw hk
  cases he with
  | call hflow =>
    rw [hflow] at hdest hcall
    exact absurd (congrArg Flow.call (Option.some.inj hdest)) hcall
  | internal hdest' _ _ =>
    refine ⟨length_copyInst _ _ _, ?_⟩
    obtain rfl := Option.some.inj (hdest'.symm.trans hdest)
    unfold emitInternal
    dsimp only
    split
    · exact BitVec.le_refl _
    · exact BitVec.not_lt.mp ‹_›
  | jmp hjmp hout =>
    rw [hjmp] at hdest
    exact absurd (Option.some.inj hdest ▸ hin) hout
  | jcc hjcc hout =>
    rw [hjcc] at hdest
    exact absurd (Option.some.inj hdest ▸ hin) hout
  | other hother _ =>
    rw [hother] at hdest
    cases hdest

theorem CopyRound.laid_cons {s₁ : TrampolineState} {ips : List (Nat × Nat)}
    (hr : CopyRound m₀ pTarget pTrampoline s s₁ e)
    (hm : ∀ x ∈ targetCode pTarget, s.bytes x = m₀ x) (ho : s.oldPos < sizeofJmpRel)
    (hl : Laid m₀ pTarget pTrampoline s₁ s' ips) :
    Laid m₀ pTarget pTrampoline s s' ((s.oldPos, s.newPos) :: ips) := by
  have hsize := hr.size
  rw [TRAMPOLINE_MAX_SIZE] at hsize
  have hpos := hr.length_pos
  have hlen : 0 < (disasm m₀ (pTarget + BitVec.ofNat 32 s.oldPos)).len := hde32_disasm_len_pos _
  have hold := hr.oldPos_eq ho
  have hnew := hr.newPos_eq
  have hdest := hr.jmpDest_eq
  -- the later rounds write behind what the round wrote
  have hwritten : Reads s'.bytes (pTrampoline + BitVec.ofNat 32 s.newPos) e.copySrc := by
    have hs₁ : Reads s₁.bytes (pTrampoline + BitVec.ofNat 32 s.newPos) e.copySrc := by
      rw [hr.bytes_eq]
      exact store_reads _ _ (by omega)
    refine hs₁.congr fun x hx => hl.frame x ?_
    exact Region.disjoint_parts pTrampoline (by omega) (by omega) x hx
  constructor
  case ips_eq => rw [hl.ips_eq, hr.ips_eq, List.append_assoc, List.singleton_append]
  case translation =>
    intro m hsame
    have hreads := hwritten.congr fun x hx => hsame x (Region.mem_of_le hx (by omega))
    obtain ⟨hmoved, hnewLen⟩ := hr.moved hm ho hreads
    refine .inst ho hmoved ?_
    rw [hnewLen, ← hold, ← hnew]
    refine hl.translation m fun x hx => hsame x ?_
    rw [hnew, ← add_ofNat_add] at hx
    exact Region.mem_of_part hx (by omega)
  case frame =>
    intro x hx
    rw [hl.frame x fun hmem => hx ?_, hr.bytes_eq]
    · exact store_of_notMem (by omega) fun hmem => hx (Region.mem_of_le hmem (by omega))
    · rw [hnew, ← add_ofNat_add] at hmem
      exact Region.mem_of_part hmem (by omega)
  case cover =>
    intro k hk5 hk hk'
    by_cases hlt : k < s₁.oldPos
    · exact ⟨_, List.mem_cons_self .., hk, by rw [← hold]; exact hlt⟩
    · obtain ⟨p, hp, hpk⟩ := hl.cover k hk5 (Nat.not_lt.mp hlt) hk'
      exact ⟨p, List.mem_cons_of_mem _ hp, hpk⟩
  case le =>
    intro p hp
    rcases List.mem_cons.mp hp with rfl | hp
    · exact ⟨Nat.le_refl _, Nat.le_refl _, by omega⟩
    · have hle := hl.le p hp
      omega
  case sorted =>
    refine List.pairwise_cons.mpr ⟨fun p hp => ?_, hl.sorted⟩
    have hle := hl.le p hp
    omega
  case forward =>
    intro hw p hp hp5 hle
    rcases List.mem_cons.mp hp with rfl | hp
    · exact Nat.add_comm _ _
    · have hpos := hl.le p hp
      have hup : s.jmpDest ≤ e.jmpDest := by
        obtain ⟨-, rfl⟩ | ⟨-, he⟩ := hr.emit
        · exact BitVec.le_refl _
        · exact he.jmpDest_le
      have hsame := hr.branch ho (by
        rw [BitVec.le_def] at hle hup
        rw [BitVec.lt_def, toNat_target hw (by omega)]
        rw [toNat_target hw hp5] at hle
        omega)
      have := hl.forward hw p hp hp5 (by rw [hdest]; exact BitVec.le_trans hle hup)
      omega
  case branches =>
    intro hw p hp q hq hlt hq5 hb
    rcases List.mem_cons.mp hq with rfl | hq
    · rcases List.mem_cons.mp hp with rfl | hp
      · exact absurd hlt (Nat.lt_irrefl _)
      · have := hl.le p hp
        dsimp only at hlt
        omega
    rcases List.mem_cons.mp hp with rfl | hp
    · obtain ⟨hcopy, hq'⟩ := hr.branch_copied hw ho hq5 hb
      have := hl.forward (Nat.le_of_lt hw) q hq hq5 (by rw [hdest]; exact hq')
      dsimp only
      omega
    · exact hl.branches hw p hp q hq hlt hq5 hb

theorem trampolineLoop_laid (hd : Region.Disjoint (w := 32) ⟨pTrampoline, 32⟩ (targetCode pTarget))
    {fuel : Nat} (hm : ∀ x ∈ targetCode pTarget, s.bytes x = m₀ x)
    (hn : s.newPos ≤ 32) (h : trampolineLoop pTarget pTrampoline fuel s = (s', true)) :
    ∃ ips, Laid m₀ pTarget pTrampoline s s' ips := by
  induction fuel generalizing s with
  | zero => cases h
  | succ fuel ih =>
    rw [trampolineLoop] at h
    split at h
    · cases h
    · rename_i s₁ hround
      obtain ⟨rfl, -⟩ := Prod.mk.inj h
      obtain ⟨e, hr, hf⟩ := trampolineRound_cases hm hround
      exact ⟨_, hr.laid_last hm hf⟩
    · rename_i s₁ hround
      obtain ⟨e, hr, hf⟩ := trampolineRound_cases hm hround
      have ho : s.oldPos < sizeofJmpRel := by
        obtain ⟨-, rfl⟩ | ⟨hshort, -⟩ := hr.emit
        · cases hf
        · exact hshort
      have hsize := hr.size
      rw [TRAMPOLINE_MAX_SIZE] at hsize
      have hnew := hr.newPos_eq
      have hm' : ∀ x ∈ targetCode pTarget, s₁.bytes x = m₀ x := by
        intro x hx
        rw [hr.bytes_eq, store_of_notMem (by omega), hm x hx]
        exact fun hmem => hd x (Region.mem_of_part hmem hsize) hx
      obtain ⟨ips, hl⟩ := ih hm' (by omega) h
      exact ⟨_, hr.laid_cons hm ho hl⟩

end CopyRound

/-! ## The trampoline -/

section Trampoline

variable {m m' : AddressSpace} {pTarget pTrampoline : DWORD} {ct : Trampoline}

/-- The slot lies apart from the code that is read. -/
abbrev SlotApart (pTarget pTrampoline : DWORD) : Prop :=
  Region.Disjoint (w := 32) ⟨pTrampoline, 32⟩ (targetCode pTarget)

/-- A trampoline of the code of `m₀` stands in its slot, in `m`. -/
structure Stands (m₀ m : DWORD → BYTE) (pTarget pTrampoline : DWORD) (ips : List (Nat × Nat)) :
    Prop where
  translation : ∀ later, (∀ x ∈ (⟨pTrampoline, 32⟩ : Region 32), later x = m x) →
    Translation m₀ later pTarget pTrampoline 0 0 ips
  lt : ∀ p ∈ ips, p.2 < 32
  sorted : ips.Pairwise fun p q => p.1 < q.1 ∧ p.2 < q.2
  forward : pTarget.toNat + 5 < 2 ^ 32 → ForwardKept m₀ pTarget ips

/-- It stands for as long as the slot is left alone. -/
theorem Stands.congr {m₀ m m' : DWORD → BYTE} {ips : List (Nat × Nat)}
    (h : Stands m₀ m pTarget pTrampoline ips)
    (hsame : ∀ x ∈ (⟨pTrampoline, 32⟩ : Region 32), m' x = m x) :
    Stands m₀ m' pTarget pTrampoline ips :=
  ⟨fun later hl => h.translation later fun x hx => (hl x hx).trans (hsame x hx), h.lt, h.sorted,
    h.forward⟩

/-- What was made, from code that is that of `m₀`. -/
theorem createTrampolineFunction_laid {m₀ : DWORD → BYTE} (hd : SlotApart pTarget pTrampoline)
    (hm : ∀ x ∈ targetCode pTarget, m.bytes x = m₀ x)
    (h : createTrampolineFunction m pTarget pTrampoline = (m', some ct)) :
    ∃ s, Laid m₀ pTarget pTrampoline (trampolineInit m.bytes) s ct.ips ∧
      m' = { m with bytes := s.bytes } ∧ checkPatch m' pTarget s.oldPos = some ct.patchAbove := by
  unfold createTrampolineFunction at h
  generalize hloop : trampolineLoop pTarget pTrampoline 9 (trampolineInit m.bytes) = r at h
  obtain ⟨s, finished⟩ := r
  cases finished with
  | false => cases h
  | true =>
    obtain ⟨ips, hl⟩ := trampolineLoop_laid hd hm (Nat.zero_le 32) hloop
    obtain ⟨rfl, hct⟩ := Prod.mk.inj h
    obtain ⟨patchAbove, hpatch, rfl⟩ := Option.map_eq_some_iff.mp hct
    have hips : s.ips = ips := hl.ips_eq
    exact ⟨s, hips ▸ hl, rfl, hpatch⟩

theorem Laid.stands {m₀ : DWORD → BYTE} {s : TrampolineState} {ips : List (Nat × Nat)}
    (hl : Laid m₀ pTarget pTrampoline (trampolineInit m.bytes) s ips) :
    Stands m₀ s.bytes pTarget pTrampoline ips ∧
      ∀ x, x ∉ (⟨pTrampoline, 32⟩ : Region 32) → s.bytes x = m.bytes x := by
  have hslot : (⟨pTrampoline + BitVec.ofNat 32 (trampolineInit m.bytes).newPos,
      32 - (trampolineInit m.bytes).newPos⟩ : Region 32) = ⟨pTrampoline, 32⟩ := by
    unfold trampolineInit
    dsimp only
    rw [BitVec.add_zero]
  have htranslation := hl.translation
  have hframe := hl.frame
  rw [hslot] at htranslation hframe
  exact ⟨⟨htranslation, fun p hp => (hl.le p hp).2.2, hl.sorted, hl.branches⟩, hframe⟩

/-- A trampoline that was made stands in its slot. -/
theorem stands_of_made {m₀ : DWORD → BYTE} (hd : SlotApart pTarget pTrampoline)
    (hm : ∀ x ∈ targetCode pTarget, m.bytes x = m₀ x)
    (h : createTrampolineFunction m pTarget pTrampoline = (m', some ct)) :
    Stands m₀ m'.bytes pTarget pTrampoline ct.ips := by
  obtain ⟨s, hl, rfl, -⟩ := createTrampolineFunction_laid hd hm h
  exact hl.stands.1

/-- A trampoline that was made has the instructions of the target, for as long as the slot is left
alone: each is there with the same bytes, or is a branch with the same destination. Nothing outside
the slot has changed. An internal jump has the same bytes: one that leads forward to a boundary
finds it at the same distance. -/
theorem createTrampolineFunction_translation (hd : SlotApart pTarget pTrampoline)
    (h : createTrampolineFunction m pTarget pTrampoline = (m', some ct)) :
    (∀ later, (∀ x ∈ (⟨pTrampoline, 32⟩ : Region 32), later x = m'.bytes x) →
      Translation m.bytes later pTarget pTrampoline 0 0 ct.ips) ∧
    (pTarget.toNat + 5 < 2 ^ 32 → ForwardKept m.bytes pTarget ct.ips) ∧
    ∀ x, x ∉ (⟨pTrampoline, 32⟩ : Region 32) → m'.bytes x = m.bytes x := by
  obtain ⟨s, hl, rfl, -⟩ := createTrampolineFunction_laid hd (fun x _ => rfl (a := m.bytes x)) h
  obtain ⟨hstands, hframe⟩ := hl.stands
  exact ⟨hstands.translation, hstands.forward, hframe⟩

theorem trampolineRound_writes {s s' : TrampolineState} {finished : Bool}
    (h : trampolineRound pTarget pTrampoline s = some (s', finished)) :
    s'.newPos ≤ 32 ∧ s'.ips.length = s.ips.length + 1 ∧ s'.ips.length ≤ 8 ∧
      ∀ x, x ∉ (⟨pTrampoline, 32⟩ : Region 32) → s'.bytes x = s.bytes x := by
  unfold trampolineRound at h
  dsimp only at h
  split at h
  · cases h
  obtain ⟨e, -, h⟩ := Option.bind_eq_some_iff.mp h
  split at h
  · cases h
  split at h
  · cases h
  rename_i hsize
  split at h
  · cases h
  rename_i hroom
  rw [TRAMPOLINE_MAX_SIZE] at hsize
  obtain ⟨rfl, -⟩ := Prod.mk.inj (Option.some.inj h)
  refine ⟨Nat.not_lt.mp hsize, by simp, by simp; omega, fun x hx => ?_⟩
  exact store_of_notMem (by omega) fun hx' => hx (Region.mem_of_part hx' (Nat.not_lt.mp hsize))

theorem trampolineLoop_writes {fuel : Nat} {s : TrampolineState} (hips : s.ips.length ≤ 8) :
    (trampolineLoop pTarget pTrampoline fuel s).1.ips.length ≤ 8 ∧
    ∀ x, x ∉ (⟨pTrampoline, 32⟩ : Region 32) →
      (trampolineLoop pTarget pTrampoline fuel s).1.bytes x = s.bytes x := by
  induction fuel generalizing s with
  | zero => exact ⟨hips, fun _ _ => rfl⟩
  | succ fuel ih =>
    rw [trampolineLoop]
    split
    · exact ⟨hips, fun _ _ => rfl⟩
    · rename_i s₁ hround
      obtain ⟨-, -, hips', hframe⟩ := trampolineRound_writes hround
      exact ⟨hips', hframe⟩
    · rename_i s₁ hround
      obtain ⟨-, -, hips', hframe⟩ := trampolineRound_writes hround
      obtain ⟨hips'', hframe'⟩ := ih hips'
      exact ⟨hips'', fun x hx => (hframe' x hx).trans (hframe x hx)⟩

/-- Whether or not a trampoline is made, nothing is written but the slot. -/
theorem createTrampolineFunction_writes (m : AddressSpace) (pTarget pTrampoline : DWORD) :
    (createTrampolineFunction m pTarget pTrampoline).1.protection = m.protection ∧
    ∀ x, x ∉ (⟨pTrampoline, 32⟩ : Region 32) →
      (createTrampolineFunction m pTarget pTrampoline).1.bytes x = m.bytes x := by
  have hloop := (@trampolineLoop_writes pTarget pTrampoline 9 (trampolineInit m.bytes)
    (Nat.zero_le 8)).2
  unfold createTrampolineFunction
  generalize trampolineLoop pTarget pTrampoline 9 (trampolineInit m.bytes) = r at hloop ⊢
  obtain ⟨s, finished⟩ := r
  dsimp only
  split
  · exact ⟨rfl, hloop⟩
  · exact ⟨rfl, hloop⟩

/-- A byte that `IsCodePadding` takes for padding. -/
def isPadding (b : BYTE) : Prop := b = 0x00 ∨ b = 0x90 ∨ b = 0xCC

theorem isCodePadding_byte {m : DWORD → BYTE} {a : DWORD} {size k : Nat}
    (h : isCodePadding m a size) (hk : k < size) : isPadding (m (a + BitVec.ofNat 32 k)) := by
  simp only [isCodePadding, Bool.and_eq_true, Bool.or_eq_true, decide_eq_true_eq,
    List.all_eq_true, List.mem_range] at h
  rw [h.2 k hk]
  exact or_assoc.mp h.1

theorem checkPatch_cases {oldPos : Nat} {patchAbove : Bool}
    (h : checkPatch m pTarget oldPos = some patchAbove) :
    (oldPos < (if patchAbove then sizeofJmpRelShort else sizeofJmpRel) →
      isCodePadding m.bytes (pTarget + BitVec.ofNat 32 oldPos)
        ((if patchAbove then sizeofJmpRelShort else sizeofJmpRel) - oldPos)) ∧
    (patchAbove → isExecutableAddress m (pTarget - 5) ∧
      isCodePadding m.bytes (pTarget - 5) sizeofJmpRel) := by
  unfold checkPatch at h
  dsimp only at h
  simp only [Bool.not_eq_true'] at h
  split at h
  · split at h
    · cases h
    rename_i hshort
    split at h
    · cases h
    rename_i hexec
    split at h
    · cases h
    rename_i habove
    obtain rfl := Option.some.inj h
    refine ⟨fun hlt => ?_, fun _ => ⟨Bool.not_eq_false _ ▸ hexec, Bool.not_eq_false _ ▸ habove⟩⟩
    exact (Bool.not_eq_false _).mp fun hf => hshort ⟨hlt, hf⟩
  · rename_i hlong
    obtain rfl := Option.some.inj h
    refine ⟨fun hlt => ?_, nofun⟩
    exact (Bool.not_eq_false _).mp fun hf => hlong ⟨hlt, hf⟩

/-- Five bytes in front of an address lie in its page, or in the page of the first of them. -/
theorem pageOf_above {a : DWORD} {k : Nat} (hk : k < 5) :
    pageOf (a - 5 + BitVec.ofNat 32 k) = pageOf (a - 5) ∨
      pageOf (a - 5 + BitVec.ofNat 32 k) = pageOf a := by
  have h5 : (5 : DWORD).toNat = 5 := rfl
  have ha := a.isLt
  have hsub := BitVec.toNat_sub a 5
  have hadd : (a - 5 + BitVec.ofNat 32 k).toNat = ((a - 5).toNat + k) % 2 ^ 32 := by
    rw [BitVec.toNat_add, BitVec.toNat_ofNat, Nat.mod_eq_of_lt (by omega : k < 2 ^ 32)]
  by_cases hpage : (a - 5).toNat % 4096 + k < 4096
  · left
    apply BitVec.eq_of_toNat_eq
    rw [toNat_pageOf, toNat_pageOf]
    omega
  · right
    apply BitVec.eq_of_toNat_eq
    rw [toNat_pageOf, toNat_pageOf]
    omega

/-- Every byte that the hook will overwrite belongs to an instruction that was copied, or is
padding. When it reaches above the target, only the page of the first byte is asked whether it can
be executed. That is enough where the target can be. -/
theorem createTrampolineFunction_patch (hd : SlotApart pTarget pTrampoline)
    (h : createTrampolineFunction m pTarget pTrampoline = (m', some ct)) :
    (∀ k < if ct.patchAbove then sizeofJmpRelShort else sizeofJmpRel,
      (∃ p ∈ ct.ips, p.1 ≤ k ∧ k < p.1 + (disasm m.bytes (pTarget + BitVec.ofNat 32 p.1)).len) ∨
        isPadding (m.bytes (pTarget + BitVec.ofNat 32 k))) ∧
    (ct.patchAbove → isExecutableAddress m (pTarget - 5) ∧
      ∀ k < sizeofJmpRel, isPadding (m.bytes (pTarget - 5 + BitVec.ofNat 32 k)) ∧
        (isExecutableAddress m pTarget →
          isExecutableAddress m (pTarget - 5 + BitVec.ofNat 32 k))) := by
  obtain ⟨s, hl, rfl, hpatch⟩ :=
    createTrampolineFunction_laid hd (fun x _ => rfl (a := m.bytes x)) h
  have hcode : ∀ x ∈ targetCode pTarget, s.bytes x = m.bytes x := fun x hx =>
    hl.stands.2 x fun hmem => hd x hmem hx
  obtain ⟨hpad, habove⟩ := checkPatch_cases hpatch
  constructor
  · intro k hk
    have hk5 : k < 5 := Nat.lt_of_lt_of_le hk (by split <;> decide)
    by_cases hlt : k < s.oldPos
    · exact .inl (hl.cover k hk5 (Nat.zero_le k) hlt)
    · -- behind the end of what was copied
      have hbyte := isCodePadding_byte (k := k - s.oldPos) (hpad (by omega)) (by omega)
      rw [add_ofNat_add, Nat.add_sub_cancel' (Nat.not_lt.mp hlt)] at hbyte
      have hin : pTarget + BitVec.ofNat 32 k ∈ targetCode pTarget := mem_target (by omega)
      exact .inr (hcode _ hin ▸ hbyte)
  · intro hpa
    obtain ⟨hexec, hpad⟩ := habove hpa
    refine ⟨hexec, fun k hk => ⟨?_, fun htarget => ?_⟩⟩
    · have hin : pTarget - 5 + BitVec.ofNat 32 k ∈ targetCode pTarget :=
        Region.add_mem (r := targetCode pTarget)
          (Nat.lt_trans hk (show sizeofJmpRel < 25 by decide))
      exact hcode _ hin ▸ isCodePadding_byte hpad hk
    · unfold isExecutableAddress at hexec htarget ⊢
      obtain hpage | hpage := pageOf_above (a := pTarget) hk
      · rw [hpage]
        exact hexec
      · rw [hpage]
        exact htarget

/-- `test eax, eax; je +0x20; call 0x402000`, and `ret` at `0x402000`, in memory that is otherwise
zero. -/
def jumpFirst : AddressSpace where
  bytes := store (store (fun _ => 0) 0x402000 [0xC3]) 0x401000
    [0x85, 0xC0, 0x74, 0x20, 0xE8, 0xF7, 0x0F, 0x00, 0x00]
  protection _ := 0x20

theorem slotApart_jumpFirst : SlotApart 0x401000 0x900020 :=
  Region.Disjoint.symm (Region.disjoint_of_toNat (by decide) (by decide))

theorem jumpFirst_made : createTrampolineFunction jumpFirst 0x401000 0x900020 =
    ((createTrampolineFunction jumpFirst 0x401000 0x900020).1,
      some ⟨false, [(0, 0), (2, 2), (4, 8), (9, 13)]⟩) := by
  have hpair : ∀ {r : AddressSpace × Option Trampoline} {c : Option Trampoline}, r.2 = c →
      r = (r.1, c) := fun h => h ▸ rfl
  exact hpair (by decide +kernel)

theorem createTrampolineFunction_translation_jumpFirst :
    Translation jumpFirst.bytes
      (createTrampolineFunction jumpFirst 0x401000 0x900020).1.bytes 0x401000 0x900020 0 0
      [(0, 0), (2, 2), (4, 8), (9, 13)] :=
  (createTrampolineFunction_translation slotApart_jumpFirst jumpFirst_made).1 _ fun _ _ => rfl

theorem createTrampolineFunction_patch_jumpFirst :
    (∃ p ∈ [(0, 0), (2, 2), (4, 8), (9, 13)], p.1 ≤ 3 ∧
      3 < p.1 + (disasm jumpFirst.bytes (0x401000 + BitVec.ofNat 32 p.1)).len) ∨
        isPadding (jumpFirst.bytes (0x401000 + BitVec.ofNat 32 3)) :=
  (createTrampolineFunction_patch slotApart_jumpFirst jumpFirst_made).1 3 (by decide)

end Trampoline

end Bossran
