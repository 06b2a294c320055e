import BossranMenu.MinHook.Relocation
import BossranMenu.Lib.Lockstep

/-!
# Running a trampoline

`Processor` says what instructions do; the relative branches have the meaning of their `Flow`. The
target is run in the memory in which its trampoline was made, and the trampoline in any later memory
in which it stands: the target may have been overwritten. The code does not change during a run.

A call that was moved leaves another return address, so the states on the two sides are not equal:
a relation `R` between them is a parameter. `Matches` relates the addresses, and `Alike` says that
an instruction, executed in states that are related, leads to states that are related.

* `Processor.step_related`: one instruction, with flows that match.
* `simulates_stands`: the trampoline follows the target, through the copy and outside of it.
* `trampoline_run`: a whole run.
-/

namespace Bossran

open Memory Lockstep

/-- A processor without its instruction pointer. An instruction that is no relative branch is given
by its bytes and the address behind it; `some` is where it goes, if it does not fall through. A call
gets its return address. -/
structure Processor (σ : Type) where
  exec : DWORD → List BYTE → σ → σ × Option DWORD
  call : DWORD → σ → σ
  cond : BYTE → σ → Bool
  loop : List BYTE → σ → σ × Bool
  ret : ∀ m a next s, (disasm m a).isRet →
    (exec next (copyInst m a (disasm m a)) s).2.isSome

/-- The address behind the instruction at `a`. -/
def nextInst (m : DWORD → BYTE) (a : DWORD) : DWORD := a + BitVec.ofNat 32 (disasm m a).len

/-- The bytes of the instruction at `a`. -/
def instBytes (m : DWORD → BYTE) (a : DWORD) : List BYTE := copyInst m a (disasm m a)

def instFlow (m : DWORD → BYTE) (a : DWORD) : Flow := (disasm m a).flow a

namespace Processor

variable {σ : Type} (cpu : Processor σ) (m : DWORD → BYTE)

/-- One instruction of the code in `m`; a state comes with the instruction pointer. -/
def step (s : σ × DWORD) : σ × DWORD :=
  match instFlow m s.2 with
  | .other =>
    let r := cpu.exec (nextInst m s.2) (instBytes m s.2) s.1
    (r.1, r.2.getD (nextInst m s.2))
  | .call dest => (cpu.call (nextInst m s.2) s.1, dest)
  | .jmp dest => (s.1, dest)
  | .jcc cond dest => (s.1, if cpu.cond cond s.1 then dest else nextInst m s.2)
  | .loop dest =>
    let r := cpu.loop (instBytes m s.2) s.1
    (r.1, if r.2 then dest else nextInst m s.2)

end Processor

/-! ## Flows -/

namespace Flow

/-- A flow with other destinations. -/
def map (f : DWORD → DWORD) : Flow → Flow
  | other => other
  | call dest => call (f dest)
  | jmp dest => jmp (f dest)
  | jcc cond dest => jcc cond (f dest)
  | loop dest => loop (f dest)

def isCall : Flow → Bool
  | call _ => true
  | _ => false

def isJmp : Flow → Bool
  | jmp _ => true
  | _ => false

/-- Is the instruction given by its bytes? -/
def byBytes : Flow → Bool
  | other | loop _ => true
  | _ => false

/-- The same flow, to destinations that are related. -/
inductive Rel (M : DWORD → DWORD → Prop) : Flow → Flow → Prop
  | other : Rel M other other
  | call {d d' : DWORD} : M d d' → Rel M (call d) (call d')
  | jmp {d d' : DWORD} : M d d' → Rel M (jmp d) (jmp d')
  | jcc {c : BYTE} {d d' : DWORD} : M d d' → Rel M (jcc c d) (jcc c d')
  | loop {d d' : DWORD} : M d d' → Rel M (loop d) (loop d')

theorem rel_map {M : DWORD → DWORD → Prop} {flow : Flow} {f : DWORD → DWORD}
    (h : ∀ d, flow.dest = some d → M d (f d)) : flow.Rel M (flow.map f) := by
  cases flow with
  | other => exact .other
  | call d => exact .call (h d rfl)
  | jmp d => exact .jmp (h d rfl)
  | jcc c d => exact .jcc (h d rfl)
  | loop d => exact .loop (h d rfl)

theorem map_id (flow : Flow) : flow.map id = flow := by
  cases flow <;> rfl

theorem rel_self {M : DWORD → DWORD → Prop} {flow : Flow}
    (h : ∀ d, flow.dest = some d → M d d) : flow.Rel M flow := by
  have hmap := rel_map (f := id) h
  rwa [map_id] at hmap

end Flow

/-- The same instruction at another place has its destination as much further. -/
theorem Hde32s.flow_move (hs : Hde32s) (a b : DWORD) :
    hs.flow b = (hs.flow a).map fun dest => dest - a + b := by
  have hmove : ∀ v : DWORD, a + BitVec.ofNat 32 hs.len + v - a + b =
      b + BitVec.ofNat 32 hs.len + v := by
    intro v
    ring
  unfold Hde32s.flow
  simp only [apply_ite (Flow.map fun dest => dest - a + b)]
  simp only [Flow.map, hmove]

theorem isRet_flow {hs : Hde32s} (h : hs.isRet) (a : DWORD) : hs.flow a = .other := by
  have hop : ∀ c : BYTE, c &&& 0xFE = 0xC2 → c ≠ 0xE8 ∧ c ≠ 0xEB ∧ c ≠ 0xE9 ∧
      c &&& 0xF0 ≠ 0x70 ∧ c &&& 0xFC ≠ 0xE0 ∧ c ≠ 0x0F := by
    decide +kernel
  obtain ⟨hE8, hEB, hE9, h70, hE0, h0F⟩ := hop _ h
  rw [Hde32s.flow, if_neg hE8, if_neg hEB, if_neg hE9, if_neg h70, if_neg hE0,
    if_neg fun h => h0F h.1]

/-! ## One instruction on two sides -/

section Alike

variable {σ : Type} {cpu : Processor σ} {m m' : DWORD → BYTE} {M : DWORD → DWORD → Prop}
  {R : σ → σ → Prop}

/-- The instruction at the state's address leads from states that are related to states that are
related, where the addresses behind it are. What it reads is the state, its bytes and, to push it,
the address behind it. -/
def Alike (cpu : Processor σ) (m : DWORD → BYTE) (M : DWORD → DWORD → Prop) (R : σ → σ → Prop)
    (e : σ × DWORD) : Prop :=
  ∀ t next', R e.1 t → M (nextInst m e.2) next' ∨ (disasm m e.2).isRet →
    match instFlow m e.2 with
    | .other =>
      let r := cpu.exec (nextInst m e.2) (instBytes m e.2) e.1
      let r' := cpu.exec next' (instBytes m e.2) t
      R r.1 r'.1 ∧ Option.Rel M r.2 r'.2
    | .call _ => R (cpu.call (nextInst m e.2) e.1) (cpu.call next' t)
    | .jmp _ => True
    | .jcc cond _ => cpu.cond cond e.1 = cpu.cond cond t
    | .loop _ =>
      let r := cpu.loop (instBytes m e.2) e.1
      let r' := cpu.loop (instBytes m e.2) t
      R r.1 r'.1 ∧ r.2 = r'.2

/-- States that are related, at addresses that are. -/
def Related (R : σ → σ → Prop) (M : DWORD → DWORD → Prop) (e e' : σ × DWORD) : Prop :=
  R e.1 e'.1 ∧ M e.2 e'.2

theorem getD_related {o o' : Option DWORD} {a b : DWORD} (h : Option.Rel M o o')
    (hab : o.isSome ∨ M a b) : M (o.getD a) (o'.getD b) := by
  cases h with
  | some hd => exact hd
  | none => exact hab.resolve_left Bool.false_ne_true

/-- An instruction and what stands for it on the other side. -/
theorem Processor.step_related {e e' : σ × DWORD} (hR : R e.1 e'.1) (halike : Alike cpu m M R e)
    (hflow : (instFlow m e.2).Rel M (instFlow m' e'.2))
    (hbytes : (instFlow m e.2).byBytes → instBytes m' e'.2 = instBytes m e.2)
    (hnext : (disasm m e.2).isRet ∨ (instFlow m e.2).isJmp ∨
      M (nextInst m e.2) (nextInst m' e'.2)) :
    Related R M (cpu.step m e) (cpu.step m' e') := by
  have hret : instFlow m e.2 ≠ .other → ¬ (disasm m e.2).isRet := fun hne hret =>
    hne (isRet_flow hret _)
  have hal := fun h => halike e'.1 (nextInst m' e'.2) hR h
  unfold Processor.step
  generalize instFlow m e.2 = f at hflow hbytes hnext hret hal
  generalize instFlow m' e'.2 = f' at hflow
  cases hflow with
  | other =>
    have hnext := hnext.imp_right fun h => h.resolve_left Bool.false_ne_true
    obtain ⟨hstate, hdest⟩ := hal hnext.symm
    dsimp only at hstate hdest ⊢
    rw [hbytes rfl]
    refine ⟨hstate, getD_related hdest ?_⟩
    exact hnext.imp_left fun h => cpu.ret m e.2 (nextInst m e.2) e.1 h
  | call hd =>
    have hnext := (hnext.resolve_left (hret fun h => by cases h)).resolve_left Bool.false_ne_true
    exact ⟨hal (.inl hnext), hd⟩
  | jmp hd => exact ⟨hR, hd⟩
  | jcc hd =>
    have hnext := (hnext.resolve_left (hret fun h => by cases h)).resolve_left Bool.false_ne_true
    have hcond := hal (.inl hnext)
    dsimp only at hcond ⊢
    rw [hcond]
    refine ⟨hR, ?_⟩
    dsimp only
    split
    · exact hd
    · exact hnext
  | loop hd =>
    have hnext := (hnext.resolve_left (hret fun h => by cases h)).resolve_left Bool.false_ne_true
    obtain ⟨hstate, htaken⟩ := hal (.inl hnext)
    dsimp only at hstate htaken ⊢
    rw [hbytes rfl]
    refine ⟨hstate, ?_⟩
    dsimp only
    rw [← htaken]
    split
    · exact hd
    · exact hnext

end Alike

/-! ## The boundaries -/

section Translation

variable {m m' : DWORD → BYTE} {pTarget pTrampoline : DWORD} {o n : Nat} {ips : List (Nat × Nat)}

/-- An internal destination is one of the first five bytes. -/
theorem internal_cases {dest : DWORD} (h : internal pTarget dest) :
    pTarget.toNat + 5 < 2 ^ 32 ∧ ∃ k < 5, dest = pTarget + BitVec.ofNat 32 k := by
  simp only [internal, Bool.and_eq_true, decide_eq_true_eq, BitVec.le_def, BitVec.lt_def,
    BitVec.toNat_add] at h
  have h5 : (5 : DWORD).toNat = 5 := rfl
  have hT := pTarget.isLt
  have hw : pTarget.toNat + 5 < 2 ^ 32 := by omega
  refine ⟨hw, (dest - pTarget).toNat, ?_, (add_offset pTarget dest).symm⟩
  rw [BitVec.toNat_sub_of_le (BitVec.le_def.mpr h.1)]
  omega

theorem Translation.head (h : Translation m m' pTarget pTrampoline o n ips) : (o, n) ∈ ips := by
  cases h with
  | back _ _ => exact List.mem_singleton_self _
  | last _ _ _ => exact List.mem_singleton_self _
  | inst _ _ _ => exact List.mem_cons_self ..

theorem Translation.fst_le (h : Translation m m' pTarget pTrampoline o n ips) (ho : o ≤ 19) :
    ∀ p ∈ ips, p.1 ≤ 19 := by
  induction h with
  | back _ _ | last _ _ _ =>
    intro p hp
    rw [List.mem_singleton.mp hp]
    exact ho
  | @inst o n ips hlt _ _ ih =>
    intro p hp
    have hlen : (disasm m (pTarget + BitVec.ofNat 32 o)).len ≤ 15 := hde32_disasm_len_le _
    rw [sizeofJmpRel] at hlt
    rcases List.mem_cons.mp hp with rfl | hp
    · exact ho
    · exact ih (by omega) p hp

/-- A boundary is where the trampoline jumps back, or an instruction that falls through to the next
boundary, unless it is the last. -/
theorem Translation.boundary (h : Translation m m' pTarget pTrampoline o n ips) {p : Nat × Nat}
    (hp : p ∈ ips) :
    (sizeofJmpRel ≤ p.1 ∧ instFlow m' (pTrampoline + BitVec.ofNat 32 p.2) =
      .jmp (pTarget + BitVec.ofNat 32 p.1)) ∨
    p.1 < sizeofJmpRel ∧
    (Copied m m' pTarget (pTarget + BitVec.ofNat 32 p.1) (pTrampoline + BitVec.ofNat 32 p.2) ∨
      Relocated m m' pTarget (pTarget + BitVec.ofNat 32 p.1) (pTrampoline + BitVec.ofNat 32 p.2)) ∧
    ((disasm m (pTarget + BitVec.ofNat 32 p.1)).isRet ∨
      (instFlow m (pTarget + BitVec.ofNat 32 p.1)).isJmp ∨
      (p.1 + (disasm m (pTarget + BitVec.ofNat 32 p.1)).len,
        p.2 + (disasm m' (pTrampoline + BitVec.ofNat 32 p.2)).len) ∈ ips) := by
  induction h with
  | back hlong hflow =>
    rw [List.mem_singleton.mp hp]
    exact .inl ⟨hlong, hflow⟩
  | last hlt hmoved hend =>
    rw [List.mem_singleton.mp hp]
    refine .inr ⟨hlt, hmoved, hend.imp_right fun ⟨d, hd⟩ => .inl ?_⟩
    rw [instFlow, hd]
    rfl
  | inst hlt hmoved hrest ih =>
    rcases List.mem_cons.mp hp with rfl | hp
    · exact .inr ⟨hlt, hmoved, .inr (.inr (List.mem_cons_of_mem _ hrest.head))⟩
    · refine (ih hp).imp_right (And.imp_right (And.imp_right ?_))
      exact Or.imp_right (Or.imp_right (List.mem_cons_of_mem _))

/-! ## Addresses -/

/-- An instruction that was copied begins at `a`. -/
def inCopy (pTarget : DWORD) (ips : List (Nat × Nat)) (a : DWORD) : Prop :=
  ∃ p ∈ ips, p.1 < sizeofJmpRel ∧ a = pTarget + BitVec.ofNat 32 p.1

instance (pTarget : DWORD) (ips : List (Nat × Nat)) (a : DWORD) :
    Decidable (inCopy pTarget ips a) :=
  inferInstanceAs (Decidable (∃ p ∈ ips, _ ∧ _))

/-- The destination of a branch is no instruction of the copy. -/
def StaysOut (pTarget : DWORD) (ips : List (Nat × Nat)) (flow : Flow) : Prop :=
  ∀ d, flow.dest = some d → ¬ inCopy pTarget ips d

instance (pTarget : DWORD) (ips : List (Nat × Nat)) (flow : Flow) :
    Decidable (StaysOut pTarget ips flow) :=
  decidable_of_iff (flow.dest.all fun d => ¬ inCopy pTarget ips d) (by
    unfold StaysOut
    cases flow.dest <;> simp)

/-- An address in the run of the target, and one in the run of the trampoline: the same boundary, or
the same address outside the copy. -/
def Matches (pTarget pTrampoline : DWORD) (ips : List (Nat × Nat)) (a b : DWORD) : Prop :=
  (b = a ∧ ¬ inCopy pTarget ips a) ∨
    ∃ p ∈ ips, a = pTarget + BitVec.ofNat 32 p.1 ∧ b = pTrampoline + BitVec.ofNat 32 p.2

/-- Every internal jump that was copied goes to a boundary, and a jump back finds the trampoline as
far back. The jumps forward do (`ForwardKept`). -/
def JumpsKept (m : DWORD → BYTE) (pTarget : DWORD) (ips : List (Nat × Nat)) : Prop :=
  ∀ p ∈ ips, p.1 < sizeofJmpRel → ∀ k < 5, branchTo m pTarget p.1 k →
    ∃ q ∈ ips, q.1 = k ∧ (p.1 < k ∨ q.2 + p.1 = k + p.2)

/-- The instruction at `a` outside the copy is in `m'` as in `m`, and does not lead into the copy:
not by its destination, and not by falling through. -/
structure Outside (m m' : DWORD → BYTE) (pTarget : DWORD) (ips : List (Nat × Nat)) (a : DWORD) :
    Prop where
  disasm_eq : disasm m' a = disasm m a
  bytes_eq : instBytes m' a = instBytes m a
  dest : StaysOut pTarget ips (instFlow m a)
  next : ¬ (disasm m a).isRet → (instFlow m a).isJmp = false →
    ¬ inCopy pTarget ips (nextInst m a)

/-- A call that was copied does not call into the copy. The other instructions are as they should
be. -/
def Passes (m m' : DWORD → BYTE) (pTarget : DWORD) (ips : List (Nat × Nat)) (a : DWORD) : Prop :=
  if inCopy pTarget ips a then
    (instFlow m a).isCall → StaysOut pTarget ips (instFlow m a)
  else Outside m m' pTarget ips a

instance (m : DWORD → BYTE) (pTarget : DWORD) (ips : List (Nat × Nat)) :
    Decidable (JumpsKept m pTarget ips) :=
  inferInstanceAs (Decidable (∀ p ∈ ips, _ → ∀ k < 5, _ → _))

instance (m m' : DWORD → BYTE) (pTarget : DWORD) (ips : List (Nat × Nat)) (a : DWORD) :
    Decidable (Outside m m' pTarget ips a) :=
  decidable_of_iff (disasm m' a = disasm m a ∧ instBytes m' a = instBytes m a ∧
      StaysOut pTarget ips (instFlow m a) ∧
      (¬ (disasm m a).isRet → (instFlow m a).isJmp = false → ¬ inCopy pTarget ips (nextInst m a)))
    ⟨fun h => ⟨h.1, h.2.1, h.2.2.1, h.2.2.2⟩,
      fun h => ⟨h.disasm_eq, h.bytes_eq, h.dest, h.next⟩⟩

instance (m m' : DWORD → BYTE) (pTarget : DWORD) (ips : List (Nat × Nat)) (a : DWORD) :
    Decidable (Passes m m' pTarget ips a) :=
  inferInstanceAs (Decidable (if inCopy pTarget ips a then
    (instFlow m a).isCall → StaysOut pTarget ips (instFlow m a)
    else Outside m m' pTarget ips a))

theorem Outside.flow_eq {a : DWORD} (h : Outside m m' pTarget ips a) :
    instFlow m' a = instFlow m a := by
  rw [instFlow, h.disasm_eq, instFlow]

theorem Outside.next_eq {a : DWORD} (h : Outside m m' pTarget ips a) :
    nextInst m' a = nextInst m a := by
  rw [nextInst, h.disasm_eq, nextInst]

/-- Code that is the same has the same instruction. -/
theorem Outside.of_bytes {a : DWORD}
    (h : ∀ j < 34, m' (a + BitVec.ofNat 32 j) = m (a + BitVec.ofNat 32 j))
    (hdest : StaysOut pTarget ips (instFlow m a))
    (hnext : ¬ (disasm m a).isRet → (instFlow m a).isJmp = false →
      ¬ inCopy pTarget ips (nextInst m a)) : Outside m m' pTarget ips a := by
  have hdis : disasm m' a = disasm m a := hde32_disasm_agree h
  refine ⟨hdis, ?_, hdest, hnext⟩
  rw [instBytes, hdis, instBytes]
  refine load_congr fun x hx => ?_
  obtain ⟨j, hj, rfl⟩ := Region.mem_iff_exists.mp hx
  have hlen : (disasm m a).len ≤ 15 := hde32_disasm_len_le _
  dsimp only at hj
  exact h j (by omega)

/-- A destination that is not internal is no instruction of the copy. -/
theorem not_inCopy {d : DWORD} (hw : pTarget.toNat + 5 < 2 ^ 32) (hd : ¬ internal pTarget d) :
    ¬ inCopy pTarget ips d := by
  rintro ⟨q, -, hlt, rfl⟩
  exact hd (internal_target hw hlt)

/-- An internal destination, on both sides. -/
theorem matches_dest {p : Nat × Nat} {d : DWORD} (hp : p ∈ ips) (hlt : p.1 < sizeofJmpRel)
    (hc : Copied m m' pTarget (pTarget + BitVec.ofNat 32 p.1)
      (pTrampoline + BitVec.ofNat 32 p.2))
    (hd : (instFlow m (pTarget + BitVec.ofNat 32 p.1)).dest = some d) (hj : JumpsKept m pTarget ips)
    (hforward : pTarget.toNat + 5 < 2 ^ 32 → ForwardKept m pTarget ips) :
    Matches pTarget pTrampoline ips d
      (d - (pTarget + BitVec.ofNat 32 p.1) + (pTrampoline + BitVec.ofNat 32 p.2)) := by
  obtain ⟨hw, k, hk, rfl⟩ := internal_cases (hc.dest d hd)
  have hb : branchTo m pTarget p.1 k := ⟨hd, hc.call _⟩
  obtain ⟨q, hq, rfl, hside⟩ := hj p hp hlt k hk hb
  have hoff : q.2 + p.1 = q.1 + p.2 :=
    hside.elim (fun hahead => hforward hw p hp q hq hahead hk hb) id
  refine .inr ⟨q, hq, rfl, ?_⟩
  have hoff' : BitVec.ofNat 32 q.2 + BitVec.ofNat 32 p.1 =
      (BitVec.ofNat 32 q.1 + BitVec.ofNat 32 p.2 : DWORD) := by
    rw [← BitVec.ofNat_add, ← BitVec.ofNat_add, hoff]
  have hq' : (BitVec.ofNat 32 q.2 : DWORD) =
      BitVec.ofNat 32 q.1 + BitVec.ofNat 32 p.2 - BitVec.ofNat 32 p.1 := by
    rw [← hoff', add_sub_cancel_right]
  rw [hq']
  ring

/-- The boundaries behind an instruction that was copied. -/
theorem matches_next {p : Nat × Nat}
    (h : (p.1 + (disasm m (pTarget + BitVec.ofNat 32 p.1)).len,
      p.2 + (disasm m' (pTrampoline + BitVec.ofNat 32 p.2)).len) ∈ ips) :
    Matches pTarget pTrampoline ips (nextInst m (pTarget + BitVec.ofNat 32 p.1))
      (nextInst m' (pTrampoline + BitVec.ofNat 32 p.2)) := by
  rw [nextInst, nextInst, add_ofNat_add, add_ofNat_add]
  exact .inr ⟨_, h, rfl, rfl⟩

theorem instBytes_copied {pOld pNew : DWORD} (h : Copied m m' pTarget pOld pNew) :
    instBytes m' pNew = instBytes m pOld := by
  rw [instBytes, h.same, instBytes]
  refine List.ext_getElem (by rw [length_copyInst, length_copyInst]) fun i hi hi' => ?_
  rw [← h.bytes i hi']
  exact getElem_load ..

end Translation

/-! ## The steps -/

section Steps

variable {m m' : DWORD → BYTE} {pTarget pTrampoline : DWORD} {ips : List (Nat × Nat)} {σ : Type}
  {cpu : Processor σ} {R : σ → σ → Prop}

/-- The trampoline follows the target: the states are related, and the addresses match. -/
abbrev Follows (R : σ → σ → Prop) (pTarget pTrampoline : DWORD) (ips : List (Nat × Nat)) :
    σ × DWORD → σ × DWORD → Prop :=
  Related R (Matches pTarget pTrampoline ips)

/-- What is asked of a step of the target in `m`, for a step in `m'` to answer it. -/
def Answerable (cpu : Processor σ) (R : σ → σ → Prop) (m m' : DWORD → BYTE)
    (pTarget pTrampoline : DWORD) (ips : List (Nat × Nat)) (e : σ × DWORD) : Prop :=
  Passes m m' pTarget ips e.2 ∧ Alike cpu m (Matches pTarget pTrampoline ips) R e

/-- A step outside the copy is made by both sides. -/
theorem follows_outside {e e' : σ × DWORD} (hR : R e.1 e'.1) (ha : e'.2 = e.2)
    (hout : Outside m m' pTarget ips e.2)
    (halike : Alike cpu m (Matches pTarget pTrampoline ips) R e) :
    Follows R pTarget pTrampoline ips (cpu.step m e) (cpu.step m' e') := by
  refine Processor.step_related hR halike ?_ (fun _ => ?_) ?_
  · rw [ha, hout.flow_eq]
    exact Flow.rel_self fun d hd => .inl ⟨rfl, hout.dest d hd⟩
  · rw [ha]
    exact hout.bytes_eq
  · rw [ha, hout.next_eq]
    by_cases hret : (disasm m e.2).isRet
    · exact .inl hret
    · cases hjmp : (instFlow m e.2).isJmp with
      | true => exact .inr (.inl rfl)
      | false => exact .inr (.inr (.inl ⟨rfl, hout.next hret hjmp⟩))

/-- A step of the target in the instructions that were copied, and one of the trampoline. -/
theorem follows_copy (hst : Stands m m' pTarget pTrampoline ips) (hj : JumpsKept m pTarget ips)
    (hw : pTarget.toNat + 5 < 2 ^ 32) {p : Nat × Nat} (hp : p ∈ ips) (hlt : p.1 < sizeofJmpRel)
    {s t : σ} (hR : R s t)
    (hcall : (instFlow m (pTarget + BitVec.ofNat 32 p.1)).isCall →
      StaysOut pTarget ips (instFlow m (pTarget + BitVec.ofNat 32 p.1)))
    (halike : Alike cpu m (Matches pTarget pTrampoline ips) R (s, pTarget + BitVec.ofNat 32 p.1)) :
    Follows R pTarget pTrampoline ips (cpu.step m (s, pTarget + BitVec.ofNat 32 p.1))
      (cpu.step m' (t, pTrampoline + BitVec.ofNat 32 p.2)) := by
  obtain ⟨hlong, -⟩ | ⟨-, hmoved, hend⟩ := (hst.translation m' fun _ _ => rfl).boundary hp
  · omega
  have hnext := hend.imp_right (Or.imp_right matches_next)
  rcases hmoved with hc | hr
  · -- a copy: the flow has moved with it
    refine Processor.step_related hR halike ?_ (fun _ => instBytes_copied hc) hnext
    have hflow : instFlow m' (pTrampoline + BitVec.ofNat 32 p.2) =
        (instFlow m (pTarget + BitVec.ofNat 32 p.1)).map fun dest =>
          dest - (pTarget + BitVec.ofNat 32 p.1) + (pTrampoline + BitVec.ofNat 32 p.2) := by
      rw [instFlow, hc.same]
      exact Hde32s.flow_move ..
    dsimp only
    rw [hflow]
    exact Flow.rel_map fun d hd => matches_dest hp hlt hc hd hj hst.forward
  · -- a branch that was relocated: the flow is the same
    have hflow : instFlow m' (pTrampoline + BitVec.ofNat 32 p.2) =
        instFlow m (pTarget + BitVec.ofNat 32 p.1) := hr.flow
    have hbranch : instFlow m (pTarget + BitVec.ofNat 32 p.1) ≠ .other := hr.branch
    have hloop : ∀ d, instFlow m (pTarget + BitVec.ofNat 32 p.1) ≠ .loop d := hr.loop
    have hjmp : ∀ d, instFlow m (pTarget + BitVec.ofNat 32 p.1) = .jmp d → ¬ internal pTarget d :=
      hr.jmp
    have hjcc : ∀ c d, instFlow m (pTarget + BitVec.ofNat 32 p.1) = .jcc c d →
        ¬ internal pTarget d := hr.jcc
    refine Processor.step_related hR halike ?_ ?_ hnext
    · dsimp only
      rw [hflow]
      refine Flow.rel_self fun d hd => .inl ⟨rfl, ?_⟩
      generalize instFlow m (pTarget + BitVec.ofNat 32 p.1) = f at hd hcall hbranch hloop hjmp hjcc
      cases f with
      | other => exact absurd rfl hbranch
      | call d' => exact hcall rfl d hd
      | jmp d' => exact not_inCopy hw (hjmp d (congrArg Flow.jmp (Option.some.inj hd)))
      | jcc c d' => exact not_inCopy hw (hjcc c d (congrArg (Flow.jcc c) (Option.some.inj hd)))
      | loop d' => exact absurd rfl (hloop d')
    · intro hbytes
      dsimp only at hbytes
      generalize instFlow m (pTarget + BitVec.ofNat 32 p.1) = f at hbytes hbranch hloop
      cases f with
      | other => exact absurd rfl hbranch
      | loop d' => exact absurd rfl (hloop d')
      | _ => cases hbytes

/-- Each step of the target that can be answered is answered by one step of the trampoline, or by
two at the jump back. -/
theorem simulates_stands (hst : Stands m m' pTarget pTrampoline ips)
    (hj : JumpsKept m pTarget ips) (hw : pTarget.toNat + 5 < 2 ^ 32) :
    Simulates (cpu.step m) (cpu.step m') (Follows R pTarget pTrampoline ips)
      (Answerable cpu R m m' pTarget pTrampoline ips) := by
  have hT := hst.translation m' fun _ _ => rfl
  have hle := hT.fst_le (Nat.zero_le 19)
  rintro ⟨s, a⟩ ⟨t, b⟩ ⟨hR, hab⟩ ⟨hpasses, halike⟩
  dsimp only at hR hab hpasses
  unfold Passes at hpasses
  by_cases hin : inCopy pTarget ips a
  · rw [if_pos hin] at hpasses
    obtain ⟨p, hp, hlt, rfl⟩ := hin
    obtain ⟨-, hout⟩ | ⟨q, hq, heq, rfl⟩ := hab
    · exact absurd ⟨p, hp, hlt, rfl⟩ hout
    · -- the boundary is the same
      have hpq : p.1 = q.1 := by
        have hinj := congrArg (fun x => (x - pTarget).toNat) heq
        rwa [offset_add pTarget (by have := hle p hp; omega),
          offset_add pTarget (by have := hle q hq; omega)] at hinj
      rw [hpq] at hlt halike hpasses ⊢
      refine ⟨1, ?_⟩
      rw [Function.iterate_one]
      exact follows_copy hst hj hw hq hlt hR hpasses halike
  · rw [if_neg hin] at hpasses
    obtain ⟨rfl, -⟩ | ⟨q, hq, rfl, rfl⟩ := hab
    · refine ⟨1, ?_⟩
      rw [Function.iterate_one]
      exact follows_outside hR rfl hpasses halike
    · -- the trampoline jumps back first
      have hjump : instFlow m' (pTrampoline + BitVec.ofNat 32 q.2) =
          .jmp (pTarget + BitVec.ofNat 32 q.1) := by
        obtain ⟨-, hjump⟩ | ⟨hlt, -⟩ := hT.boundary hq
        · exact hjump
        · exact absurd ⟨q, hq, hlt, rfl⟩ hin
      have hback : cpu.step m' (t, pTrampoline + BitVec.ofNat 32 q.2) =
          (t, pTarget + BitVec.ofNat 32 q.1) := by
        unfold Processor.step
        simp only [hjump]
      refine ⟨2, ?_⟩
      rw [Function.iterate_succ_apply, Function.iterate_one, hback]
      exact follows_outside hR rfl hpasses halike

/-- A whole run of the target whose steps can be answered. -/
theorem stands_run (hst : Stands m m' pTarget pTrampoline ips) (hj : JumpsKept m pTarget ips)
    (hw : pTarget.toNat + 5 < 2 ^ 32) {e e' : σ × DWORD}
    (hfollows : Follows R pTarget pTrampoline ips e e') {N : Nat}
    (hrun : ∀ i < N, Answerable cpu R m m' pTarget pTrampoline ips ((cpu.step m)^[i] e)) :
    ∃ k, Follows R pTarget pTrampoline ips ((cpu.step m)^[N] e) ((cpu.step m')^[k] e') :=
  (simulates_stands hst hj hw).run hfollows hrun

end Steps

/-! ## The trampoline -/

section Run

variable {m m' : AddressSpace} {later : DWORD → BYTE} {pTarget pTrampoline : DWORD}
  {ct : Trampoline} {σ : Type}

/-- Counts the instructions that are no relative branches, and has a stack of return addresses. A
prefix is seen as a `RET`. -/
def stacked : Processor (Nat × List DWORD) where
  exec _ bytes s :=
    if bytes.headD 0 &&& 0xFE = 0xC2 ∨ Hde32.prefixBytes.contains (bytes.headD 0) then
      ((s.1 + 1, s.2.tail), some (s.2.headD 0))
    else ((s.1 + 1, s.2), none)
  call next s := (s.1, next :: s.2)
  cond _ _ := false
  loop _ s := (s, false)
  ret m a next s h := by
    have hhead : (copyInst m a (disasm m a)).headD 0 = codeAt m a 0 := by
      have hpos : 0 < (disasm m a).len := hde32_disasm_len_pos _
      obtain ⟨n, hn⟩ := Nat.exists_eq_succ_of_ne_zero (Nat.ne_of_gt hpos)
      rw [copyInst, load, hn, List.range_succ_eq_map]
      rfl
    by_cases hpre : codeAt m a 0 ∈ Hde32.prefixBytes
    · have hleave : Hde32.prefixBytes.contains (codeAt m a 0) := List.contains_iff_mem.mpr hpre
      simp only [hhead, hleave, or_true, if_true, Option.isSome_some]
    · have hop : codeAt m a 0 &&& 0xFE = 0xC2 := by
        rw [← hde32_disasm_opcode hpre]
        exact h
      simp only [hhead, hop, true_or, if_true, Option.isSome_some]

/-- Equal counts, and return addresses that match. -/
def StacksMatch (M : DWORD → DWORD → Prop) (s t : Nat × List DWORD) : Prop :=
  s.1 = t.1 ∧ List.Forall₂ M s.2 t.2

/-- Every instruction keeps the stacks matching. An empty stack returns to 0. -/
theorem alike_stacked {M : DWORD → DWORD → Prop} (hM : M 0 0) (m : DWORD → BYTE)
    (e : (Nat × List DWORD) × DWORD) : Alike stacked m M (StacksMatch M) e := by
  rintro ⟨n, stack⟩ next' ⟨hcount, hstack⟩ hnext
  dsimp only at hcount hstack
  cases hf : instFlow m e.2 with
  | other =>
    simp only [stacked]
    split
    · refine ⟨⟨congrArg (· + 1) hcount, ?_⟩, .some ?_⟩
      · generalize e.1.2 = stack' at hstack
        cases hstack with
        | nil => exact .nil
        | cons _ htail => exact htail
      · generalize e.1.2 = stack' at hstack
        cases hstack with
        | nil => exact hM
        | cons hhead _ => exact hhead
    · exact ⟨⟨congrArg (· + 1) hcount, hstack⟩, .none⟩
  | call d =>
    refine ⟨hcount, .cons (hnext.resolve_right fun hret => ?_) hstack⟩
    have hother : instFlow m e.2 = .other := isRet_flow hret e.2
    rw [hf] at hother
    cases hother
  | jmp d => exact trivial
  | jcc c d => rfl
  | loop d => exact ⟨⟨hcount, hstack⟩, rfl⟩

/-- The boundaries of `jumpFirst`. -/
def jumpFirstIPs : List (Nat × Nat) := [(0, 0), (2, 2), (4, 8), (9, 13)]

/-- The target tests, does not jump, and calls the function at `0x402000`, which returns. -/
theorem stacked_jumpFirst : ∀ i < 5,
    ((stacked.step jumpFirst.bytes)^[i] ((0, [0x500000]), 0x401000)).2 =
      [(0x401000 : DWORD), 0x401002, 0x401004, 0x402000, 0x401009].getD i 0 := by
  decide +kernel

/-- Behind the copy, and in the function that is called, the code is as it was. -/
theorem passes_jumpFirst {later : DWORD → BYTE} (hlater : ∀ x, x ∈ (⟨0x402000, 34⟩ : Region 32) ∨
      x ∈ (⟨0x401009, 34⟩ : Region 32) → later x = jumpFirst.bytes x) {i : Nat} (hi : i < 5) :
    Passes jumpFirst.bytes later 0x401000 jumpFirstIPs
      ([(0x401000 : DWORD), 0x401002, 0x401004, 0x402000, 0x401009].getD i 0) := by
  have hin : ∀ {a : DWORD}, inCopy 0x401000 jumpFirstIPs a →
      StaysOut 0x401000 jumpFirstIPs (instFlow jumpFirst.bytes a) →
      Passes jumpFirst.bytes later 0x401000 jumpFirstIPs a := by
    intro a hin hstays
    rw [Passes, if_pos hin]
    exact fun _ => hstays
  have hout : ∀ {a : DWORD}, ¬ inCopy 0x401000 jumpFirstIPs a →
      Outside jumpFirst.bytes later 0x401000 jumpFirstIPs a →
      Passes jumpFirst.bytes later 0x401000 jumpFirstIPs a := by
    intro a hin hout
    rw [Passes, if_neg hin]
    exact hout
  match i, hi with
  | 0, _ => exact hin (by decide) (by decide +kernel)
  | 1, _ => exact hin (by decide) (by decide +kernel)
  | 2, _ => exact hin (by decide) (by decide +kernel)
  | 3, _ =>
    refine hout (by decide) (.of_bytes (fun j hj => hlater _ (.inl ?_)) (by decide +kernel)
      (by decide +kernel))
    exact Region.add_mem (r := ⟨0x402000, 34⟩) hj
  | 4, _ =>
    refine hout (by decide) (.of_bytes (fun j hj => hlater _ (.inr ?_)) (by decide +kernel)
      (by decide +kernel))
    exact Region.add_mem (r := ⟨0x401009, 34⟩) hj

theorem answerable_jumpFirst {later : DWORD → BYTE} (pTrampoline : DWORD)
    (hlater : ∀ x, x ∈ (⟨0x402000, 34⟩ : Region 32) ∨ x ∈ (⟨0x401009, 34⟩ : Region 32) →
      later x = jumpFirst.bytes x) : ∀ i < 5,
    Answerable stacked (StacksMatch (Matches 0x401000 pTrampoline jumpFirstIPs)) jumpFirst.bytes
      later 0x401000 pTrampoline jumpFirstIPs
      ((stacked.step jumpFirst.bytes)^[i] ((0, [0x500000]), 0x401000)) := by
  intro i hi
  refine ⟨?_, alike_stacked (.inl ⟨rfl, by decide⟩) _ _⟩
  rw [stacked_jumpFirst i hi]
  exact passes_jumpFirst hlater hi

theorem follows_jumpFirst (pTrampoline : DWORD) :
    Follows (StacksMatch (Matches 0x401000 pTrampoline jumpFirstIPs)) 0x401000 pTrampoline
      jumpFirstIPs ((0, [0x500000]), 0x401000) ((0, [0x500000]), pTrampoline) := by
  refine ⟨⟨rfl, .cons (.inl ⟨rfl, by decide⟩) .nil⟩, .inr ⟨(0, 0), by decide, by decide, ?_⟩⟩
  exact (BitVec.add_zero pTrampoline).symm

/-- The memory of the trampoline, and a hook over its target. -/
def jumpFirstHooked : DWORD → BYTE :=
  store (createTrampolineFunction jumpFirst 0x401000 0x900020).1.bytes 0x401000 [0xE9, 0, 0, 0, 0]

theorem jumpFirstHooked_eq {x : DWORD} (htarget : x ∉ (⟨0x401000, 5⟩ : Region 32))
    (hslot : x ∉ (⟨0x900020, 32⟩ : Region 32)) : jumpFirstHooked x = jumpFirst.bytes x := by
  rw [jumpFirstHooked, store_of_notMem (by decide) htarget]
  exact (createTrampolineFunction_writes ..).2 x hslot

end Run

end Bossran
