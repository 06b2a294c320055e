import BossranMenu.Scan.Order

/-!
# Switching a toggle off

Each toggle's off branch writes the bytes that its sites held before. It does for every site but
`lawak3`, whose off branch spells `D8 05 EC FA` where the signature has `D8 05 EC EA`:

* `Toggle.off_eq_pattern`: every other off branch writes the first bytes of the signature;
* `scriptCaving_reads`: those are the bytes that a site held when its signature matched;
* `restoresOff_iff`: a session restores every site that is off at a call of `BooleanFunct` exactly
  if `lawakpepe` is on at each of its calls.
-/

namespace Bossran

open Memory

variable {minia : Option GameModule} {caves : Cave → DWORD}

/-- The off branch writes what the signature starts with, except at `lawak3`. -/
theorem Toggle.off_eq_pattern : ∀ t ∈ toggles, ∀ c ∈ t.off, ∀ v, c.1 = .site v → v ≠ .lawak3 →
    c.2 = v.signature.pattern.take c.2.length := by
  decide

/-- `lawak3` belongs to `lawakpepe`. -/
theorem Toggle.flag_of_lawak3 : ∀ t ∈ toggles, ∀ c ∈ t.off, c.1 = .site .lawak3 →
    t.flag = .lawakpepe := by
  decide

/-- What the off branch of `lawakpepe` writes at `lawak3`. -/
theorem lawak3_mem_off :
    (.site .lawak3, [0xD8, 0x05, 0xeC, 0xfa, 0x81, 0x00]) ∈ Toggle.lawakpepe.off := by
  simp [Toggle.lawakpepe]

/-- A site held its signature when `ScriptCaving` searched for it. -/
theorem scriptCaving_reads {s : World} {v : Site} (h : (scriptCaving minia caves s).site v ≠ 0) :
    Reads (atScan minia caves s v).mem.bytes ((scriptCaving minia caves s).site v)
      v.signature.pattern := by
  rw [scriptCaving_site] at h ⊢
  exact Site.reads_of_scan_ne_zero h

/-- At every call of `BooleanFunct` in the session `steps` after `ScriptCaving`, every site whose
flag is off holds afterwards the bytes that it held when its signature matched. -/
def RestoresOff (minia : Option GameModule) (caves : Cave → DWORD) (m : AddressSpace)
    (steps : List Step) : Prop :=
  let s := scriptCaving minia caves (World.init m)
  ∀ pre post, steps = pre ++ .booleanFunct :: post → ∀ t ∈ toggles, ∀ v n,
    (.site v, n) ∈ t.on.map callRange → (session s pre).flags t.flag = false → ∀ k < n,
      (session s (pre ++ [.booleanFunct])).mem.bytes (s.site v + BitVec.ofNat 32 k) =
        (atScan minia caves (World.init m) v).mem.bytes (s.site v + BitVec.ofNat 32 k)

/-- The bytes of a site after a call with its flag off are those of the off branch. -/
theorem session_reads_off {s : World} (hd : s.regions.Pairwise Region.Disjoint) {pre : List Step}
    {t : Toggle} (ht : t ∈ toggles) (hf : (session s pre).flags t.flag = false)
    {v : Site} {bs : List BYTE} (hc : (.site v, bs) ∈ t.off) :
    Reads (session s (pre ++ [.booleanFunct])).mem.bytes (s.site v) bs := by
  have hmem : (.site v, bs) ∈ toggleCalls (session s pre).flags := by
    refine List.mem_flatMap.mpr ⟨t, ht, ?_⟩
    rw [Toggle.calls, hf]
    exact hc
  have h := booleanFunct_reads (s := session s pre) (by rwa [session_regions]) hmem
  rw [session_snoc]
  simp only [World.address, Target.address, session_site] at h
  exact h

/-- With every signature found and no two ranges overlapping, a session restores the code of every
toggle that is off, exactly if `lawakpepe` is on whenever `BooleanFunct` is called. -/
theorem restoresOff_iff (m : AddressSpace)
    (hfound : ∀ v, (scriptCaving minia caves (World.init m)).site v ≠ 0)
    (hdisj : (scriptCaving minia caves (World.init m)).regions.Pairwise Region.Disjoint)
    (steps : List Step) :
    RestoresOff minia caves m steps ↔
      ∀ pre post, steps = pre ++ .booleanFunct :: post →
        (session (scriptCaving minia caves (World.init m)) pre).flags .lawakpepe = true := by
  constructor
  · intro h pre post hsplit
    by_contra hf
    rw [Bool.not_eq_true] at hf
    have hk := h pre post hsplit Toggle.lawakpepe (by simp [toggles]) .lawak3 6
      (by simp [Toggle.lawakpepe, callRange]) hf 3 (by omega)
    have hoff := session_reads_off hdisj (by simp [toggles]) hf lawak3_mem_off
    have hsig := scriptCaving_reads (hfound .lawak3)
    -- The fourth byte: `FA` in the off branch, `EA` in the signature.
    rw [hoff 3 (by decide), hsig 3 (by decide)] at hk
    revert hk
    decide
  · intro h pre post hsplit t ht v n hn hf k hk
    obtain ⟨c, hc, hcr⟩ : ∃ c ∈ t.off, callRange c = (.site v, n) := by
      rcases Toggle.off_ranges ht with he | rfl
      · rw [← he] at hn
        exact List.mem_map.mp hn
      · simp [Toggle.space, callRange] at hn
    obtain ⟨u, bs⟩ := c
    obtain ⟨rfl, rfl⟩ : u = .site v ∧ bs.length = n := by simpa [callRange] using hcr
    have hv : v ≠ .lawak3 := by
      rintro rfl
      rw [Toggle.flag_of_lawak3 t ht _ hc rfl, h pre post hsplit] at hf
      cases hf
    have hbs : bs = v.signature.pattern.take bs.length :=
      Toggle.off_eq_pattern t ht _ hc v rfl hv
    have hlen : k < v.signature.pattern.length := by
      have := congrArg List.length hbs
      rw [List.length_take] at this
      omega
    have hoff := session_reads_off hdisj ht hf hc
    rw [hoff k hk, scriptCaving_reads (hfound v) k hlen]
    rw [List.getElem_of_eq hbs hk, List.getElem_take]

/-- The sample image has all its regions apart. -/
theorem sample_regions :
    (scriptCaving (some sampleModule) sampleCaves
      (World.init sampleImage)).regions.Pairwise Region.Disjoint := by
  have h : (scriptCaving (some sampleModule) sampleCaves (World.init sampleImage)).site =
      sampleAddress := funext sample_site
  rw [World.regions, h]
  decide +kernel

theorem sample_found (v : Site) :
    (scriptCaving (some sampleModule) sampleCaves (World.init sampleImage)).site v ≠ 0 := by
  rw [sample_site]
  revert v
  decide +kernel

/-- One call of `BooleanFunct` with all flags off does not restore the sample image. -/
theorem restoresOff_iff_sample :
    RestoresOff (some sampleModule) sampleCaves sampleImage [.booleanFunct] ↔
      ∀ pre post, [Step.booleanFunct] = pre ++ .booleanFunct :: post →
        (session (scriptCaving (some sampleModule) sampleCaves (World.init sampleImage))
          pre).flags .lawakpepe = true :=
  restoresOff_iff sampleImage sample_found sample_regions [.booleanFunct]

/-- In the sample image every signature is found and no two regions overlap, and still one call of
`BooleanFunct` with `lawakpepe` off leaves `FA` at the fourth byte of `lawak3`, where the signature
matched `EA`. -/
theorem not_restoresOff_sample :
    (∀ v, (scriptCaving (some sampleModule) sampleCaves (World.init sampleImage)).site v ≠ 0) ∧
    (scriptCaving (some sampleModule) sampleCaves
      (World.init sampleImage)).regions.Pairwise Region.Disjoint ∧
    ¬ RestoresOff (some sampleModule) sampleCaves sampleImage [.booleanFunct] := by
  refine ⟨sample_found, sample_regions, fun h => ?_⟩
  have hk := h [] [] rfl Toggle.lawakpepe (by simp [toggles]) .lawak3 6
    (by simp [Toggle.lawakpepe, callRange]) (by rw [session, List.foldl_nil, scriptCaving_flags]; rfl)
    3 (by omega)
  have hflag : (session (scriptCaving (some sampleModule) sampleCaves
      (World.init sampleImage)) []).flags Toggle.lawakpepe.flag = false := by
    rw [session, List.foldl_nil, scriptCaving_flags]
    rfl
  have hoff := session_reads_off sample_regions (by simp [toggles]) hflag lawak3_mem_off
  have hsig := scriptCaving_reads (sample_found .lawak3)
  rw [hoff 3 (by decide), hsig 3 (by decide)] at hk
  revert hk
  decide

end Bossran
