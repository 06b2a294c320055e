import BossranMenu.Scan.Session

/-!
# Missing signatures

`SigScan` returns 0 for a signature that it does not find, and none of its callers looks at the
result. The log of a session tells which target each write was made for. Every address can be read
and written here, address 0 and its neighbours too: where the process has no such page, the write
that the log shows is the one at which it faults.

* `LogOk`: every write is one of `writtenRanges`, at the address of its target. It holds after
  `ScriptCaving` and is kept by every step (`session_logOk`).
* `session_targets`: which sites a session writes does not depend on what the scans found.
* `leavesAlone_iff`: a session writes nothing but patches of found signatures and the literal
  addresses exactly if every signature whose site it writes occurs in the module.
-/

namespace Bossran

open Memory

/-! ## The log -/

/-- Every write so far is in the range of a target, at the address the target has now. -/
def LogOk (s : World) : Prop :=
  ∀ e ∈ s.log, (e.target, e.write.data.length) ∈ writtenRanges ∧ e.write.addr = s.address e.target

theorem LogOk.congr {s s' : World} (h : LogOk s) (hsite : s'.site = s.site)
    (hlog : s'.log = s.log) : LogOk s' := by
  intro e he
  rw [hlog] at he
  rw [World.address_congr hsite]
  exact h e he

theorem LogOk.append {s s' : World} (h : LogOk s) (hsite : s'.site = s.site) {es : List LogEntry}
    (hlog : s'.log = s.log ++ es)
    (hes : ∀ e ∈ es, (e.target, e.write.data.length) ∈ writtenRanges ∧
      e.write.addr = s.address e.target) : LogOk s' := by
  intro e he
  rw [hlog] at he
  rw [World.address_congr hsite]
  rcases List.mem_append.mp he with he | he
  · exact h e he
  · exact hes e he

theorem mem_writtenRanges_of_toggle {r : Target × Nat} (h : r ∈ toggleRanges) :
    r ∈ writtenRanges := by
  simp [writtenRanges, h]

theorem booleanFunct_logOk {s : World} (h : LogOk s) : LogOk (booleanFunct s) := by
  refine h.append (booleanFunct_site s) (booleanFunct_log s) fun e he => ?_
  obtain ⟨c, hc, rfl⟩ := List.mem_map.mp he
  refine ⟨mem_writtenRanges_of_toggle ?_, rfl⟩
  exact (toggleCalls_sublist s.flags).subset (List.mem_map_of_mem hc)

theorem World.workerVisit_logOk {s : World} (h : LogOk s) {a : DWORD} (ha : a ∈ workerAddresses) :
    LogOk (s.workerVisit a) := by
  unfold World.workerVisit
  split
  · refine h.append rfl rfl fun e he => ?_
    rw [List.mem_singleton.mp he]
    refine ⟨?_, rfl⟩
    simp only [writtenRanges, List.mem_append, List.mem_map, List.mem_eraseDups]
    exact .inr ⟨a, ha, rfl⟩
  · exact h

theorem Step.exec_logOk (a : Step) {s : World} (h : LogOk s) : LogOk (a.exec s) := by
  cases a with
  | setFlags flags => exact h.congr rfl rfl
  | booleanFunct => exact booleanFunct_logOk h
  | workerVisit address =>
    simp only [Step.exec]
    split
    · rename_i ha
      exact World.workerVisit_logOk h ha.2
    · exact h
  | other bytes => exact h.congr rfl rfl

theorem session_logOk {s : World} (h : LogOk s) (steps : List Step) : LogOk (session s steps) := by
  induction steps generalizing s with
  | nil => exact h
  | cons a steps ih => exact ih (a.exec_logOk h)

section

variable {minia : Option GameModule} {caves : Cave → DWORD}

/-- `c` may come before `d` in a body: `d` does not assign the site that `c` wrote to. -/
def CavingStmt.Before (c d : CavingStmt) : Prop :=
  ∀ v ∈ Site.all, d = .sigScan v → c.range.map Prod.fst ≠ some (.site v)

instance (c d : CavingStmt) : Decidable (c.Before d) :=
  inferInstanceAs (Decidable (∀ v ∈ Site.all, _ → _))

theorem cavingStmts_pairwise : cavingStmts.Pairwise CavingStmt.Before := by decide +kernel

theorem cavingStmts_ranges : ∀ c ∈ cavingStmts, ∀ r ∈ c.range, r ∈ writtenRanges := by
  intro c hc r hr
  simp only [writtenRanges, List.mem_append, List.mem_filterMap]
  exact .inl (.inl ⟨c, hc, hr⟩)

/-- A statement that does not assign a site already written to keeps the log in order. -/
theorem CavingStmt.exec_logOk {c : CavingStmt} (hc : c ∈ cavingStmts) {s : World} (h : LogOk s)
    (hs : ∀ e ∈ s.log, ∀ v, e.target = .site v → c ≠ .sigScan v) :
    LogOk (c.exec minia caves s) := by
  have haddr : ∀ e ∈ s.log, (c.exec minia caves s).address e.target = s.address e.target := by
    intro e he
    cases ht : e.target with
    | site v => exact CavingStmt.exec_site (hs e he v ht) s
    | fixed a => rfl
  rcases CavingStmt.exec_cases minia caves (cavingStmts_wellSized c hc) s with
    ⟨-, -, hlog⟩ | ⟨t, n, bs, hr, hn, -, -, hlog⟩
  · intro e he
    rw [hlog] at he
    rw [haddr e he]
    exact h e he
  · intro e he
    rw [hlog] at he
    rcases List.mem_append.mp he with he | he
    · rw [haddr e he]
      exact h e he
    · rw [List.mem_singleton.mp he]
      refine ⟨hn ▸ cavingStmts_ranges c hc _ hr, ?_⟩
      cases c with
      | sigScan v => cases hr
      | hook v cave len => cases hr; rfl
      | writeBytes v bs' => cases hr; rfl
      | writeNOPs a length => cases hr; rfl

theorem CavingStmt.exec_log_target {c : CavingStmt} (hc : c.WellSized) {s : World} {e : LogEntry}
    (he : e ∈ (c.exec minia caves s).log) :
    e ∈ s.log ∨ c.range.map Prod.fst = some e.target := by
  rcases CavingStmt.exec_cases minia caves hc s with
    ⟨-, -, hlog⟩ | ⟨t, n, bs, hr, -, -, -, hlog⟩
  · exact .inl (hlog ▸ he)
  · rw [hlog] at he
    rcases List.mem_append.mp he with he | he
    · exact .inl he
    · rw [List.mem_singleton.mp he, hr]
      exact .inr rfl

theorem execAll_logOk {cs : List CavingStmt} (hcs : ∀ c ∈ cs, c ∈ cavingStmts)
    (hp : cs.Pairwise CavingStmt.Before) {s : World} (h : LogOk s)
    (hs : ∀ e ∈ s.log, ∀ v, e.target = .site v → .sigScan v ∉ cs) :
    LogOk (execAll minia caves s cs) := by
  induction cs generalizing s with
  | nil => exact h
  | cons c cs ih =>
    rw [List.pairwise_cons] at hp
    have hc := hcs c (List.mem_cons_self ..)
    rw [execAll_cons]
    refine ih (fun d hd => hcs d (List.mem_cons_of_mem _ hd)) hp.2 (CavingStmt.exec_logOk hc h ?_) ?_
    · rintro e he v hv rfl
      exact hs e he v hv (List.mem_cons_self ..)
    · intro e he v hv hd
      rcases CavingStmt.exec_log_target (cavingStmts_wellSized c hc) he with he | hr
      · exact hs e he v hv (List.mem_cons_of_mem _ hd)
      · exact hp.1 _ hd v v.mem_all rfl (hr.trans (by rw [hv]))

variable (minia caves) in
theorem scriptCaving_logOk (m : AddressSpace) :
    LogOk (scriptCaving minia caves (World.init m)) :=
  execAll_logOk (fun _ h => h) cavingStmts_pairwise (fun e he => by cases he)
    fun e he => by cases he

/-! ## Which targets a session writes -/

/-- The targets written so far. -/
def World.targets (s : World) : List Target := s.log.map (·.target)

theorem CavingStmt.exec_targets {c : CavingStmt} (hc : c.WellSized) (s : World) :
    (c.exec minia caves s).targets = s.targets ++ (c.range.map Prod.fst).toList := by
  rcases CavingStmt.exec_cases minia caves hc s with
    ⟨hr, -, hlog⟩ | ⟨t, n, bs, hr, -, -, -, hlog⟩
  · simp [World.targets, hr, hlog]
  · simp [World.targets, hr, hlog]

theorem execAll_targets {cs : List CavingStmt} (hcs : ∀ c ∈ cs, c.WellSized) (s : World) :
    (execAll minia caves s cs).targets =
      s.targets ++ (cs.filterMap CavingStmt.range).map Prod.fst := by
  induction cs generalizing s with
  | nil => simp
  | cons c cs ih =>
    rw [execAll_cons, ih (fun d hd => hcs d (List.mem_cons_of_mem _ hd)),
      CavingStmt.exec_targets (hcs c (List.mem_cons_self ..))]
    cases hr : c.range <;> simp [hr]

/-- The sites that `ScriptCaving` patches. -/
def Site.inCaving (v : Site) : Prop := .site v ∈ (cavingStmts.filterMap CavingStmt.range).map Prod.fst

instance (v : Site) : Decidable v.inCaving := inferInstanceAs (Decidable (_ ∈ _))

theorem Site.inCaving_or_toggle : ∀ v : Site, v.inCaving ∨ .site v ∈ toggleRanges.map Prod.fst := by
  decide +kernel

theorem Step.exec_targets_mono (a : Step) (s : World) {t : Target} (h : t ∈ s.targets) :
    t ∈ (a.exec s).targets := by
  cases a with
  | setFlags => exact h
  | booleanFunct =>
    rw [Step.exec, World.targets, booleanFunct_log, List.map_append]
    exact List.mem_append_left _ h
  | workerVisit address =>
    simp only [Step.exec, World.workerVisit]
    split
    · split
      · simp only [World.targets, List.map_append, List.mem_append]
        exact .inl h
      · exact h
    · exact h
  | other => exact h

/-- A call of `BooleanFunct` writes every site of the toggles. -/
theorem booleanFunct_targets (s : World) {v : Site} (h : .site v ∈ toggleRanges.map Prod.fst) :
    .site v ∈ (booleanFunct s).targets := by
  obtain ⟨r, hr, hv⟩ := List.mem_map.mp h
  obtain ⟨c, hc, rfl⟩ := List.mem_map.mp (toggleCalls_covers s.flags hr (by rintro rfl; cases hv))
  rw [World.targets, booleanFunct_log, List.map_append, List.map_map]
  exact List.mem_append_right _ (List.mem_map.mpr ⟨c, hc, hv⟩)

/-- A step other than a call of `BooleanFunct` writes no site. -/
theorem Step.exec_site_targets {a : Step} (ha : a ≠ .booleanFunct) {s : World} {v : Site}
    (h : .site v ∈ (a.exec s).targets) : .site v ∈ s.targets := by
  cases a with
  | setFlags => exact h
  | booleanFunct => exact absurd rfl ha
  | workerVisit address =>
    simp only [Step.exec, World.workerVisit] at h
    split at h
    · split at h
      · simpa [World.targets] using h
      · exact h
    · exact h
  | other => exact h

/-- The sites that a session has written: those of `ScriptCaving`, and all of them as soon as
`BooleanFunct` was called. -/
theorem session_targets (m : AddressSpace) (steps : List Step) (v : Site) :
    .site v ∈ (session (scriptCaving minia caves (World.init m)) steps).targets ↔
      v.inCaving ∨ .booleanFunct ∈ steps := by
  have hcaving : .site v ∈ (scriptCaving minia caves (World.init m)).targets ↔ v.inCaving := by
    rw [scriptCaving, execAll_targets cavingStmts_wellSized]
    exact Iff.rfl
  generalize scriptCaving minia caves (World.init m) = s at hcaving
  induction steps using List.reverseRecOn with
  | nil => simpa [session] using hcaving
  | append_singleton steps a ih =>
    rw [session_snoc, List.mem_append, List.mem_singleton]
    by_cases ha : a = .booleanFunct
    · subst ha
      refine ⟨fun _ => .inr (.inr rfl), fun _ => ?_⟩
      rcases v.inCaving_or_toggle with hv | hv
      · exact Step.exec_targets_mono _ _ (ih.mpr (.inl hv))
      · exact booleanFunct_targets _ hv
    · constructor
      · intro h
        rcases ih.mp (Step.exec_site_targets ha h) with h | h
        · exact .inl h
        · exact .inr (.inl h)
      · rintro (h | h | h)
        · exact Step.exec_targets_mono _ _ (ih.mpr (.inl h))
        · exact Step.exec_targets_mono _ _ (ih.mpr (.inr h))
        · exact absurd h.symm ha

/-! ## Signatures in the module -/

/-- The signature of `v` stands in the module, where the loop of `SigScan` gets to. -/
def Occurs (minia : Option GameModule) (m : AddressSpace) (v : Site) : Prop :=
  ∃ g ∈ minia, ∃ i, i + v.cells.length < g.size.toNat ∧
    Window m.bytes (g.base + BitVec.ofNat 32 i) v.cells

/-- `a` is the result of a scan for `v` that found it in the module. -/
def FoundAt (minia : Option GameModule) (v : Site) (a : DWORD) : Prop :=
  a ≠ 0 ∧ ∃ g ∈ minia, (a - g.base).toNat + v.cells.length ≤ g.size.toNat

theorem occurs_iff_foundAt (m : AddressSpace) (v : Site) :
    Occurs minia m v ↔ FoundAt minia v (v.scan m minia) := by
  constructor
  · rintro ⟨g, hg, i, hi, hw⟩
    rw [Option.mem_def] at hg
    subst hg
    have hbound : scanBound (getModuleInfo (some g)) v.signature.pattern.length =
        g.size.toNat - v.cells.length := by
      rw [v.length_cells] at hi ⊢
      exact scanBound_of_le (show _ ≤ g.size.toNat by omega)
    obtain ⟨j, hj, hf⟩ := firstMatch_of_window (n := g.size.toNat - v.cells.length) (by omega) hw
    have hscan : v.scan m (some g) = g.base + BitVec.ofNat 32 j := by
      rw [v.scan_eq, Site.firstMatch, hbound]
      simp only [getModuleInfo, hf]
    have hfits := g.fits
    have hpos := g.base_pos
    rw [hscan]
    refine ⟨fun h0 => ?_, g, rfl, ?_⟩
    · have := congrArg BitVec.toNat h0
      rw [BitVec.toNat_add, BitVec.toNat_ofNat, Nat.mod_eq_of_lt (a := j) (by omega),
        Nat.mod_eq_of_lt (by omega)] at this
      simp at this
      omega
    · rw [offset_add _ (by omega)]
      omega
  · rintro ⟨h0, g, hg, hin⟩
    rw [Option.mem_def] at hg
    subst hg
    obtain ⟨i, hf, hscan⟩ := Site.firstMatch_of_scan_ne_zero h0
    rw [Site.firstMatch, firstMatch_eq_some] at hf
    obtain ⟨hi, hw, -⟩ := hf
    have hlt : i < 2 ^ 32 := lt_trans hi (BitVec.isLt _)
    rw [hscan, getModuleInfo, offset_add _ hlt] at hin
    rw [scanBound_of_le (by rw [← v.length_cells]; simp only [getModuleInfo]; omega)] at hi
    refine ⟨g, rfl, i, ?_, hw⟩
    rw [v.length_cells]
    simp only [getModuleInfo] at hi
    omega

/-! ## Sessions that leave memory alone -/

/-- The literal ranges of `Scan.h`. -/
def literalRegions : List (Region 32) :=
  writtenRanges.filterMap fun r =>
    match r.1 with
    | .fixed a => some ⟨a, r.2⟩
    | .site _ => none

/-- Every byte that the session writes lies in the window of a found signature or in a literal
range, and nothing is written for a signature that was not found. -/
structure LeavesAlone (minia : Option GameModule) (caves : Cave → DWORD) (m : AddressSpace)
    (steps : List Step) : Prop where
  bytes : ∀ e ∈ (session (scriptCaving minia caves (World.init m)) steps).log, ∀ x ∈ e.write.region,
    (∃ v : Site, FoundAt minia v ((scriptCaving minia caves (World.init m)).site v) ∧
      x ∈ windowRegion ((scriptCaving minia caves (World.init m)).site v) v.cells) ∨
    ∃ r ∈ literalRegions, x ∈ r
  missing : ∀ v : Site, ¬ FoundAt minia v ((scriptCaving minia caves (World.init m)).site v) →
    .site v ∉ (session (scriptCaving minia caves (World.init m)) steps).targets

/-- A site is patched within the window of its signature. -/
theorem writtenRanges_le : ∀ r ∈ writtenRanges, ∀ v : Site, r.1 = .site v → r.2 ≤ v.cells.length := by
  decide +kernel

/-- A session leaves memory alone exactly if every signature whose site it writes stands in the
module when `ScriptCaving` searches for it. -/
theorem leavesAlone_iff (m : AddressSpace) (steps : List Step) :
    LeavesAlone minia caves m steps ↔
      ∀ v : Site, v.inCaving ∨ .booleanFunct ∈ steps →
        Occurs minia (atScan minia caves (World.init m) v).mem v := by
  have hfound : ∀ v : Site, Occurs minia (atScan minia caves (World.init m) v).mem v ↔
      FoundAt minia v ((scriptCaving minia caves (World.init m)).site v) := by
    intro v
    rw [scriptCaving_site, occurs_iff_foundAt]
  have hlog := session_logOk (scriptCaving_logOk minia caves m) steps
  constructor
  · intro h v hv
    rw [hfound]
    by_contra hn
    exact h.missing v hn ((session_targets m steps v).mpr hv)
  · intro h
    have hsites : ∀ v : Site,
        .site v ∈ (session (scriptCaving minia caves (World.init m)) steps).targets →
          FoundAt minia v ((scriptCaving minia caves (World.init m)).site v) :=
      fun v hv => (hfound v).mp (h v ((session_targets m steps v).mp hv))
    refine ⟨fun e he x hx => ?_, fun v hn hv => hn (hsites v hv)⟩
    obtain ⟨hr, haddr⟩ := hlog e he
    cases ht : e.target with
    | site v =>
      refine .inl ⟨v, hsites v (ht ▸ List.mem_map_of_mem he), ?_⟩
      have hle := writtenRanges_le _ hr v ht
      rw [World.address, session_site, ht] at haddr
      rw [Write.region, haddr] at hx
      exact Region.mem_of_le hx hle
    | fixed a =>
      refine .inr ⟨⟨a, e.write.data.length⟩, ?_, ?_⟩
      · exact List.mem_filterMap.mpr ⟨_, hr, by rw [ht]⟩
      · rw [World.address, ht] at haddr
        rwa [Write.region, haddr] at hx

end

/-! ## A module without signatures -/

/-- A small module of zeros. -/
def blankImage : AddressSpace where
  bytes _ := 0
  protection _ := 0x20

def blankModule : GameModule where
  base := 0x00400000
  size := 0x20
  base_pos := defaultBase_pos
  fits := by decide

def blankCaves : Cave → DWORD := fun _ => 0x10001000

/-- In the blank module the scan for `lraddr` returns 0, and `ScriptCaving` writes its jump there. -/
theorem not_leavesAlone_blank :
    (scriptCaving (some blankModule) blankCaves (World.init blankImage)).site .lraddr = 0 ∧
    ¬ LeavesAlone (some blankModule) blankCaves blankImage [] := by
  have hsite :
      (scriptCaving (some blankModule) blankCaves (World.init blankImage)).site .lraddr = 0 := by
    rw [scriptCaving_site]
    show Site.scan .lraddr blankImage (some blankModule) = 0
    decide +kernel
  refine ⟨hsite, fun h => ?_⟩
  refine h.missing .lraddr (fun hf => hf.1 hsite) ((session_targets _ _ _).mpr (.inl ?_))
  decide

end Bossran
