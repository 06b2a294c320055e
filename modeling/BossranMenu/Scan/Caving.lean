import BossranMenu.Scan.Sites

/-!
# `ScriptCaving` (`Scan.h`)

`cavingStmts` is the body of `ScriptCaving`, one statement for each of its lines (the assignment
of a return address and the call of `script` after it are one, `hook`), and `scriptCaving` executes
it. The commented-out scripts are left out.

* `atScan v`: the state in which the scan for `v` is made.
* `scriptCaving_site`: no statement assigns a site variable twice, so after `ScriptCaving` the
  variable holds what `SigScan` returned in `atScan v`.
-/

namespace Bossran

open Memory

/-- The naked functions that the hooks jump to. -/
inductive Cave where
  | LRCave | AS1Cave
  deriving DecidableEq

inductive CavingStmt where
  /-- `v = SigScan("minia.exe", ..)` -/
  | sigScan (v : Site)
  /-- `jmpback = v + len; script((void*)v, cave, len)` -/
  | hook (v : Site) (cave : Cave) (len : Nat)
  /-- `WriteBytes(v, bs, ..)` -/
  | writeBytes (v : Site) (bs : List BYTE)
  /-- `WriteNOPs(a, length)` -/
  | writeNOPs (a : DWORD) (length : Nat)
  deriving DecidableEq

def skillbypass1 : DWORD := 0x00617096
def skillbypass2 : DWORD := 0x00580F17
def skillbypass3 : DWORD := 0x006170A2
def skillbypass4 : DWORD := 0x00580F1C
def skillbypass5 : DWORD := 0x00617099
def skillbypass6 : DWORD := 0x00580F25
def skillbypass7 : DWORD := 0x0061709C
def skillbypass8 : DWORD := 0x00580F2E
def skillbypass9 : DWORD := 0x0061709F
def skillbypass10 : DWORD := 0x00580F38
def skillbypass11 : DWORD := 0x006170F9

def cavingStmts : List CavingStmt :=
  [.sigScan .lraddr, .hook .lraddr .LRCave 6,
    .sigScan .as1addr, .hook .as1addr .AS1Cave 6,
    .sigScan .drones, .sigScan .wallnames, .sigScan .lawak1, .sigScan .lawak2, .sigScan .lawak3,
    .sigScan .fscrolls, .sigScan .fogs, .sigScan .invibypass1, .sigScan .nocdrevive,
    .sigScan .nocdrevive2, .sigScan .tagos1, .sigScan .tagos2, .sigScan .TAXIHACK,
    .sigScan .PYTELEHACK, .sigScan .SPBPHACK, .sigScan .lrbuss,
    .sigScan .petcdbyps, .writeBytes .petcdbyps [0xD8, 0x1D, 0x1D, 0x00, 0xFD],
    .sigScan .bankcdbyps, .writeBytes .bankcdbyps [0xD8, 0x1D, 0x1D, 0x00, 0xFD],
    .sigScan .bikecdbyps, .writeBytes .bikecdbyps [0xD8, 0x1D, 0x1D, 0x00, 0xFD],
    .sigScan .slotcdbyps, .writeBytes .slotcdbyps [0x00],
    .writeNOPs skillbypass1 3, .writeNOPs skillbypass2 2, .writeNOPs skillbypass3 6,
    .writeNOPs skillbypass4 6, .writeNOPs skillbypass5 3, .writeNOPs skillbypass6 6,
    .writeNOPs skillbypass7 3, .writeNOPs skillbypass8 6, .writeNOPs skillbypass9 3,
    .writeNOPs skillbypass10 6, .writeNOPs skillbypass11 3]

section

variable (minia : Option GameModule) (caves : Cave → DWORD)

/-- `script` at a site, after its return address was assigned. -/
def World.hook (s : World) (v : Site) (cave : Cave) (len : Nat) : World :=
  let a := s.site v
  { s with
    mem := (script s.mem a (caves cave) len).1
    jmpbacklr := if cave = .LRCave then a + BitVec.ofNat 32 len else s.jmpbacklr
    jmpbackas1 := if cave = .AS1Cave then a + BitVec.ofNat 32 len else s.jmpbackas1
    log := s.log ++ [⟨.site v, ⟨a, jumpBytes a (caves cave) len⟩⟩] }

def CavingStmt.exec (s : World) : CavingStmt → World
  | .sigScan v => { s with site := Function.update s.site v (v.scan s.mem minia) }
  | .hook v cave len => s.hook caves v cave len
  | .writeBytes v bs => s.writeBytes (.site v) bs
  | .writeNOPs a length => s.writeNOPs a length

/-- A block of statements of `ScriptCaving`. -/
def execAll (s : World) (cs : List CavingStmt) : World := cs.foldl (CavingStmt.exec minia caves) s

/-- `ScriptCaving`. -/
def scriptCaving (s : World) : World := execAll minia caves s cavingStmts

/-- The state in which `ScriptCaving` searches for `v`. -/
def atScan (s : World) (v : Site) : World :=
  execAll minia caves s (cavingStmts.takeWhile (· ≠ .sigScan v))

/-! ## Execution -/

@[simp] theorem execAll_nil (s : World) : execAll minia caves s [] = s := rfl

theorem execAll_append (s : World) (cs ds : List CavingStmt) :
    execAll minia caves s (cs ++ ds) = execAll minia caves (execAll minia caves s cs) ds := by
  simp [execAll]

theorem execAll_cons (s : World) (c : CavingStmt) (cs : List CavingStmt) :
    execAll minia caves s (c :: cs) = execAll minia caves (c.exec minia caves s) cs := rfl

variable {minia caves}

/-- What every statement of a block preserves, the block preserves. -/
theorem execAll_preserves {I : World → Prop} {cs : List CavingStmt}
    (h : ∀ c ∈ cs, ∀ s, I s → I (c.exec minia caves s)) {s : World} (hs : I s) :
    I (execAll minia caves s cs) := by
  induction cs generalizing s with
  | nil => exact hs
  | cons c cs ih =>
    rw [execAll_cons]
    exact ih (fun d hd => h d (List.mem_cons_of_mem _ hd)) (h c (List.mem_cons_self ..) s hs)

/-- Only its own scan assigns a site variable. -/
theorem CavingStmt.exec_site {c : CavingStmt} {v : Site} (h : c ≠ .sigScan v) (s : World) :
    (c.exec minia caves s).site v = s.site v := by
  cases c with
  | sigScan u =>
    have hv : v ≠ u := fun e => h (by rw [e])
    exact Function.update_of_ne hv _ _
  | hook => rfl
  | writeBytes => rfl
  | writeNOPs => rfl

theorem execAll_site {cs : List CavingStmt} {v : Site} (h : .sigScan v ∉ cs) (s : World) :
    (execAll minia caves s cs).site v = s.site v :=
  execAll_preserves (I := fun t => t.site v = s.site v)
    (fun c hc t ht => by rw [CavingStmt.exec_site (fun e => h (e ▸ hc)), ht]) rfl

theorem CavingStmt.exec_flags (c : CavingStmt) (s : World) :
    (c.exec minia caves s).flags = s.flags := by
  cases c <;> rfl

theorem execAll_flags (cs : List CavingStmt) (s : World) :
    (execAll minia caves s cs).flags = s.flags :=
  execAll_preserves (I := fun t => t.flags = s.flags)
    (fun c _ t ht => by rw [CavingStmt.exec_flags, ht]) rfl

/-- The statements before and after the scan for `v`; there is no second one. -/
theorem cavingStmts_split (v : Site) : ∃ post, .sigScan v ∉ post ∧
    cavingStmts = cavingStmts.takeWhile (· ≠ .sigScan v) ++ .sigScan v :: post := by
  refine ⟨(cavingStmts.dropWhile (· ≠ .sigScan v)).tail, ?_, ?_⟩
  · cases v <;> decide
  · cases v <;> rfl

/-- After `ScriptCaving` a site variable holds the result of its scan. -/
theorem scriptCaving_site (s : World) (v : Site) :
    (scriptCaving minia caves s).site v = v.scan (atScan minia caves s v).mem minia := by
  obtain ⟨post, hpost, hsplit⟩ := cavingStmts_split v
  unfold scriptCaving
  rw [hsplit, execAll_append, execAll_cons, execAll_site hpost]
  exact Function.update_self ..

theorem scriptCaving_flags (s : World) : (scriptCaving minia caves s).flags = s.flags :=
  execAll_flags _ _

/-! ## Memory and log -/

/-- The lengths that `script` patches: at least the jump. -/
def CavingStmt.WellSized : CavingStmt → Prop
  | .sigScan _ => True
  | .hook _ _ len => 5 ≤ len ∧ len ≤ 2 ^ 32
  | .writeBytes _ bs => bs.length ≤ 2 ^ 32
  | .writeNOPs _ length => length ≤ 2 ^ 32

theorem cavingStmts_wellSized : ∀ c ∈ cavingStmts, c.WellSized := by
  simp [cavingStmts, CavingStmt.WellSized]

/-- The target of a statement's write and its size. -/
def CavingStmt.range : CavingStmt → Option (Target × Nat)
  | .sigScan _ => none
  | .hook v _ len => some (.site v, len)
  | .writeBytes v bs => some (.site v, bs.length)
  | .writeNOPs a length => some (.fixed a, length)

variable (minia caves) in
/-- A statement either writes nothing, or makes one logged store of its range. -/
theorem CavingStmt.exec_cases {c : CavingStmt} (hc : c.WellSized) (s : World) :
    (c.range = none ∧ (c.exec minia caves s).mem = s.mem ∧
      (c.exec minia caves s).log = s.log) ∨
    ∃ t n bs, c.range = some (t, n) ∧ bs.length = n ∧ n ≤ 2 ^ 32 ∧
      (c.exec minia caves s).mem.bytes = store s.mem.bytes (s.address t) bs ∧
      (c.exec minia caves s).log = s.log ++ [⟨t, ⟨s.address t, bs⟩⟩] := by
  cases c with
  | sigScan v => exact .inl ⟨rfl, rfl, rfl⟩
  | hook v cave len =>
    refine .inr ⟨.site v, len, jumpBytes (s.site v) (caves cave) len, rfl,
      length_jumpBytes _ _ hc.1, hc.2, ?_, rfl⟩
    exact script_bytes _ _ _ hc.1 hc.2
  | writeBytes v bs => exact .inr ⟨.site v, bs.length, bs, rfl, rfl, hc, rfl, rfl⟩
  | writeNOPs a length =>
    exact .inr ⟨.fixed a, length, List.replicate length 0x90, rfl, by simp, hc, rfl, rfl⟩

end

end Bossran
