import Mathlib.Data.List.TakeWhile
import BossranMenu.Scan.Session

/-!
# Patching while scanning

`ScriptCaving` scans and patches in turns, so later scans see a partly patched image. What is known
of a patch is its `E9` and its `NOP`s (the displacement depends on where the cave is), or all of
its bytes. No signature can straddle the known bytes of an earlier patch
(`patch_noStraddle`), so as long as no patch touches the first match of a later signature, every
scan returns what it returns on the unmodified image (`atScan_scan`).
-/

namespace Bossran

open Memory

/-- What is known of the bytes that a statement writes. -/
def CavingStmt.known : CavingStmt → List (Option BYTE)
  | .sigScan _ => []
  | .hook _ _ len => some 0xE9 :: List.replicate 4 none ++ List.replicate (len - 5) (some 0x90)
  | .writeBytes _ bs => bs.map some
  | .writeNOPs _ length => List.replicate length (some 0x90)

/-- The patch that `ScriptCaving` makes right after the scan for a site. -/
def Site.cavingPatch : Site → Option CavingStmt
  | .lraddr => some (.hook .lraddr .LRCave 6)
  | .as1addr => some (.hook .as1addr .AS1Cave 6)
  | .petcdbyps => some (.writeBytes .petcdbyps [0xD8, 0x1D, 0x1D, 0x00, 0xFD])
  | .bankcdbyps => some (.writeBytes .bankcdbyps [0xD8, 0x1D, 0x1D, 0x00, 0xFD])
  | .bikecdbyps => some (.writeBytes .bikecdbyps [0xD8, 0x1D, 0x1D, 0x00, 0xFD])
  | .slotcdbyps => some (.writeBytes .slotcdbyps [0x00])
  | _ => none

/-- The scan for a site and the patch after it. -/
def Site.stmts (v : Site) : List CavingStmt := .sigScan v :: v.cavingPatch.toList

/-- The sites searched before `v`. -/
def Site.earlier (v : Site) : List Site := Site.all.takeWhile (· ≠ v)

theorem takeWhile_cavingStmts (v : Site) :
    cavingStmts.takeWhile (· ≠ .sigScan v) = v.earlier.flatMap Site.stmts := by
  cases v <;> rfl

theorem take_all_eq_earlier : ∀ n (h : n < Site.all.length),
    Site.all.take n = (Site.all[n]).earlier := by
  decide

/-- No signature can straddle the patch of an earlier site. -/
theorem patch_noStraddle : ∀ v : Site, ∀ u ∈ v.earlier, ∀ c ∈ u.cavingPatch,
    NoStraddle v.cells c.known := by
  decide +kernel

theorem Site.mem_earlier_ne {u v : Site} (h : u ∈ v.earlier) : u ≠ v := by
  simpa using List.mem_takeWhile_imp h

/-- A patch starts at its site and is no longer than the signature. -/
theorem Site.cavingPatch_range {v : Site} {c : CavingStmt} (h : c ∈ v.cavingPatch) :
    c.range = some (.site v, c.known.length) ∧ c.known.length ≤ v.cells.length ∧
      c.WellSized ∧ 0 < c.known.length := by
  cases v <;> cases h <;> refine ⟨rfl, by decide, ?_, by decide⟩ <;>
    simp [CavingStmt.WellSized]

section

variable {minia : Option GameModule} {caves : Cave → DWORD}

/-- The bytes of a jump are as they are known. -/
theorem jumpBytes_known (a f : DWORD) (len : Nat) (v : Site) (cave : Cave) (i : Nat) (b : BYTE)
    (h : (CavingStmt.hook v cave len).known[i]? = some (some b)) :
    (jumpBytes a f len)[i]? = some b := by
  simp only [CavingStmt.known, jumpBytes] at h ⊢
  rcases i with _ | _ | _ | _ | _ | i
  · simpa using h
  iterate 4 simp at h
  · simp only [List.cons_append, List.getElem?_cons_succ, wordBytes, List.nil_append,
      List.getElem?_replicate, List.replicate_succ, List.replicate_zero] at h ⊢
    split at h
    · rw [if_pos ‹_›]
      simpa using h
    · cases h

variable (minia caves) in
/-- A patch is one store at its site, of bytes as they are known. -/
theorem Site.exec_cavingPatch {v : Site} {c : CavingStmt} (h : c ∈ v.cavingPatch) (s : World) :
    ∃ bs : List BYTE, bs.length = c.known.length ∧
      (∀ (i : Nat) (b : BYTE), c.known[i]? = some (some b) → bs[i]? = some b) ∧
      (c.exec minia caves s).mem.bytes = store s.mem.bytes (s.site v) bs ∧
      (c.exec minia caves s).log = s.log ++ [⟨.site v, ⟨s.site v, bs⟩⟩] ∧
      (c.exec minia caves s).site = s.site := by
  cases c with
  | sigScan u => cases v <;> cases h
  | writeNOPs a length => cases v <;> cases h
  | hook u cave len =>
    obtain ⟨rfl, rfl⟩ : u = v ∧ len = 6 := by cases v <;> cases h <;> exact ⟨rfl, rfl⟩
    exact ⟨_, rfl, jumpBytes_known _ _ 6 u cave, script_bytes _ _ _ (by omega) (by omega), rfl, rfl⟩
  | writeBytes u bs =>
    obtain rfl : u = v := by cases v <;> cases h <;> rfl
    refine ⟨bs, by simp [CavingStmt.known], fun i b hb => ?_, rfl, rfl, rfl⟩
    simpa [CavingStmt.known] using hb

/-! ## The scans -/

/-- The patches of the sites `us`, given the site variables. -/
def patchesOf (site : Site → DWORD) (us : List Site) : List (Patch 32 BYTE) :=
  us.flatMap fun u => u.cavingPatch.toList.map fun c => ⟨site u, c.known⟩

/-- The results of all scans on one image. -/
def scanned (m : AddressSpace) (minia : Option GameModule) (v : Site) : DWORD := v.scan m minia

/-- The state after the scans and patches of `us`, compared with the unmodified image `m`. -/
structure ScannedLike (m : AddressSpace) (minia : Option GameModule) (us : List Site)
    (s : World) : Prop where
  site : ∀ u ∈ us, s.site u = u.scan m minia
  patched : Patched m.bytes s.mem.bytes (patchesOf (scanned m minia) us)
  log : s.log.map (·.write.region) = (patchesOf (scanned m minia) us).map Patch.region

/-- No patch made before the scan for `v` touches the window of `v`. -/
def Untouched (site : Site → DWORD) (v : Site) : Prop :=
  ∀ d ∈ patchesOf site v.earlier, d.region.Disjoint (windowRegion (site v) v.cells)

instance (site : Site → DWORD) (v : Site) : Decidable (Untouched site v) :=
  inferInstanceAs (Decidable (∀ d ∈ patchesOf site v.earlier, _))

/-- A scan whose first match no patch touches returns what it returns on the unmodified image. -/
theorem ScannedLike.scan {m : AddressSpace} {v : Site} {s : World}
    (h : ScannedLike m minia v.earlier s) (hfound : v.scan m minia ≠ 0)
    (hv : Untouched (scanned m minia) v) : v.scan s.mem minia = v.scan m minia := by
  obtain ⟨i, hi, he⟩ := Site.firstMatch_of_scan_ne_zero hfound
  have hi' : v.firstMatch s.mem minia = some i := by
    refine firstMatch_congr h.patched ?_ hi fun d hd => he ▸ hv d hd
    intro e he'
    obtain ⟨u, hu, hu'⟩ := List.mem_flatMap.mp he'
    obtain ⟨c, hc, rfl⟩ := List.mem_map.mp hu'
    exact patch_noStraddle v u hu c (Option.mem_toList.mp hc)
  rw [v.scan_eq, hi', he]

variable (caves) in
/-- One more scan and its patch. -/
theorem ScannedLike.stmts {m : AddressSpace} {v : Site} {s : World}
    (h : ScannedLike m minia v.earlier s) (hfound : v.scan m minia ≠ 0)
    (hv : Untouched (scanned m minia) v) :
    ScannedLike m minia (v.earlier ++ [v]) (execAll minia caves s v.stmts) := by
  have hscan := h.scan hfound hv
  rw [Site.stmts, execAll_cons]
  have ht : ScannedLike m minia v.earlier ((CavingStmt.sigScan v).exec minia caves s) := by
    refine ⟨fun u hu => ?_, h.patched, h.log⟩
    rw [CavingStmt.exec_site (by simpa using (Site.mem_earlier_ne hu).symm), h.site u hu]
  have htv : ((CavingStmt.sigScan v).exec minia caves s).site v = v.scan m minia := by
    rw [← hscan]
    exact Function.update_self ..
  generalize (CavingStmt.sigScan v).exec minia caves s = t at ht htv
  have hsite : ∀ u ∈ v.earlier ++ [v], t.site u = u.scan m minia := by
    intro u hu
    rcases List.mem_append.mp hu with hu | hu
    · exact ht.site u hu
    · rw [List.mem_singleton.mp hu, htv]
  cases hp : v.cavingPatch with
  | none =>
    have hps : patchesOf (scanned m minia) (v.earlier ++ [v]) =
        patchesOf (scanned m minia) v.earlier := by
      simp [patchesOf, hp]
    exact ⟨hsite, hps ▸ ht.patched, hps ▸ ht.log⟩
  | some c =>
    obtain ⟨bs, hlen, hknown, hmem, hlog, hsite'⟩ :=
      Site.exec_cavingPatch minia caves (Option.mem_def.mpr hp) t
    obtain ⟨-, hle, -, -⟩ := Site.cavingPatch_range (Option.mem_def.mpr hp)
    have hsmall : bs.length ≤ 2 ^ 32 := by
      have := v.length_pattern_le
      rw [v.length_cells] at hle
      omega
    have hps : patchesOf (scanned m minia) (v.earlier ++ [v]) =
        patchesOf (scanned m minia) v.earlier ++ [⟨scanned m minia v, c.known⟩] := by
      simp [patchesOf, hp]
    simp only [Option.toList_some, execAll_cons, execAll_nil]
    refine ⟨fun u hu => by rw [hsite', hsite u hu], ?_, ?_⟩
    · rw [hps, hmem, htv]
      refine ht.patched.snoc (fun x hx => store_of_notMem hsmall ?_) ?_ ?_
      · rwa [hlen]
      · exact (store_reads _ _ hsmall).window hknown
      · exact fun d hd x hxd hx => hv d hd x hxd (Region.mem_of_le hx hle)
    · rw [hps, hlog, List.map_append, ht.log, List.map_append, htv]
      simp [Write.region, Patch.region, windowRegion, hlen, scanned]

/-- The state after the first `n` scans and their patches. -/
def afterScans (minia : Option GameModule) (caves : Cave → DWORD) (m : AddressSpace)
    (n : Nat) : World :=
  execAll minia caves (World.init m) ((Site.all.take n).flatMap Site.stmts)

theorem atScan_eq_afterScans (m : AddressSpace) {n : Nat} (hn : n < Site.all.length) :
    atScan minia caves (World.init m) Site.all[n] = afterScans minia caves m n := by
  rw [atScan, takeWhile_cavingStmts, ← take_all_eq_earlier n hn, afterScans]

variable (caves) in
/-- The partly patched image scans like the unmodified one, as long as each patch leaves the first
matches of the later signatures alone. -/
theorem scannedLike {m : AddressSpace} (hfound : ∀ v : Site, v.scan m minia ≠ 0)
    (hv : ∀ n (hn : n < Site.all.length),
      ScannedLike m minia (Site.all[n]).earlier (afterScans minia caves m n) →
        Untouched (scanned m minia) Site.all[n]) (n : Nat) (hn : n ≤ Site.all.length) :
    ScannedLike m minia (Site.all.take n) (afterScans minia caves m n) := by
  induction n with
  | zero => exact ⟨fun u hu => by simp at hu, Patched.refl _, rfl⟩
  | succ n ih =>
    have ih := ih (by omega)
    rw [take_all_eq_earlier n hn] at ih
    have hstep := ih.stmts caves (hfound _) (hv n hn ih)
    rw [afterScans, List.take_add_one, List.getElem?_eq_getElem hn, Option.toList_some,
      List.flatMap_append, execAll_append, List.flatMap_singleton, take_all_eq_earlier n hn]
    rw [afterScans, take_all_eq_earlier n hn] at hstep
    exact hstep

/-- After all scans, the site variables hold the results on the unmodified image. -/
theorem scriptCaving_site_of_untouched {m : AddressSpace} (hfound : ∀ v : Site, v.scan m minia ≠ 0)
    (hv : ∀ v, Untouched (scanned m minia) v) (v : Site) :
    (scriptCaving minia caves (World.init m)).site v = v.scan m minia := by
  obtain ⟨n, hn, rfl⟩ := List.mem_iff_getElem.mp v.mem_all
  have h := scannedLike caves hfound (fun n _ _ => hv _) n (by omega)
  rw [take_all_eq_earlier n hn, ← atScan_eq_afterScans m hn] at h
  rw [scriptCaving_site]
  exact h.scan (hfound _) (hv _)

/-- What was logged before a scan is disjoint from the window of the scan. -/
theorem log_disjoint_of_untouched {m : AddressSpace} (hfound : ∀ v : Site, v.scan m minia ≠ 0)
    (hv : ∀ v, Untouched (scanned m minia) v) (v : Site) :
    ∀ e ∈ (atScan minia caves (World.init m) v).log,
      e.write.region.Disjoint (windowRegion (v.scan m minia) v.cells) := by
  intro e he
  obtain ⟨n, hn, rfl⟩ := List.mem_iff_getElem.mp v.mem_all
  rw [atScan_eq_afterScans m hn] at he
  have h := scannedLike caves hfound (fun n _ _ => hv _) n (by omega)
  rw [take_all_eq_earlier n hn] at h
  have hmem : e.write.region ∈
      (patchesOf (scanned m minia) (Site.all[n]).earlier).map Patch.region := by
    rw [← h.log]
    exact List.mem_map_of_mem he
  obtain ⟨d, hd, hde⟩ := List.mem_map.mp hmem
  rw [← hde]
  exact hv _ d hd

/-- With every signature found, and no range patched before the scan for a site touching the first
match of its signature, each scan of `ScriptCaving` on the partly patched image returns the address
that it returns on the unmodified image. -/
theorem atScan_scan (m : AddressSpace) (hfound : ∀ v : Site, v.scan m minia ≠ 0)
    (hov : ∀ v, ∀ e ∈ (atScan minia caves (World.init m) v).log,
      e.write.region.Disjoint (windowRegion (v.scan m minia) v.cells)) (v : Site) :
    v.scan (atScan minia caves (World.init m) v).mem minia = v.scan m minia := by
  have huntouched : ∀ n (hn : n < Site.all.length),
      ScannedLike m minia (Site.all[n]).earlier (afterScans minia caves m n) →
        Untouched (scanned m minia) Site.all[n] := by
    intro n hn h d hd
    have hmem : d.region ∈ (afterScans minia caves m n).log.map (·.write.region) := by
      rw [h.log]
      exact List.mem_map_of_mem hd
    obtain ⟨e, he, hed⟩ := List.mem_map.mp hmem
    rw [← hed]
    exact hov _ e (by rwa [atScan_eq_afterScans m hn])
  obtain ⟨n, hn, rfl⟩ := List.mem_iff_getElem.mp v.mem_all
  have h := scannedLike caves hfound huntouched n (by omega)
  rw [take_all_eq_earlier n hn] at h
  rw [atScan_eq_afterScans m hn]
  exact h.scan (hfound _) (huntouched n hn h)

/-! ## An image with every signature -/

/-- Each site's signature in a block of 20 bytes of its own. -/
def sampleImage : AddressSpace where
  bytes x :=
    let o := (x - 0x00400000).toNat
    match Site.all[o / 20]? with
    | some v => v.signature.pattern.getD (o % 20) 0x55
    | none => 0x55
  protection _ := 0x20

def sampleModule : GameModule where
  base := 0x00400000
  size := 0x1C0
  base_pos := defaultBase_pos
  fits := by decide

def sampleCaves : Cave → DWORD
  | .LRCave => 0x10001000
  | .AS1Cave => 0x10002000

def sampleAddress (v : Site) : DWORD := 0x00400000 + BitVec.ofNat 32 (20 * Site.all.idxOf v)

theorem sample_scan : ∀ v : Site, v.scan sampleImage (some sampleModule) = sampleAddress v := by
  decide +kernel

theorem sample_scanned : scanned sampleImage (some sampleModule) = sampleAddress :=
  funext sample_scan

theorem sample_scan_ne_zero (v : Site) : v.scan sampleImage (some sampleModule) ≠ 0 := by
  rw [sample_scan]
  revert v
  decide +kernel

theorem sample_untouched (v : Site) : Untouched (scanned sampleImage (some sampleModule)) v := by
  rw [sample_scanned]
  revert v
  decide +kernel

/-- `ScriptCaving` finds each site of the sample image where its block is. -/
theorem sample_site (v : Site) :
    (scriptCaving (some sampleModule) sampleCaves (World.init sampleImage)).site v =
      sampleAddress v := by
  rw [scriptCaving_site_of_untouched sample_scan_ne_zero sample_untouched, sample_scan]

/-- The last scan of the sample image, after all hooks and three of the patches. -/
theorem atScan_scan_sample :
    Site.slotcdbyps.scan
      (atScan (some sampleModule) sampleCaves (World.init sampleImage) .slotcdbyps).mem
      (some sampleModule) = Site.slotcdbyps.scan sampleImage (some sampleModule) :=
  atScan_scan sampleImage sample_scan_ne_zero
    (log_disjoint_of_untouched sample_scan_ne_zero sample_untouched) .slotcdbyps

end

end Bossran
