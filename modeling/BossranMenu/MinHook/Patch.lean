import BossranMenu.MinHook.Hook
import BossranMenu.MinHook.Relocation
import BossranMenu.MinHook.Allocator

/-!
# What enabling and disabling writes (`hook.c`)

The window of a hook is what `EnableHookLL` overwrites: the jump to the detour when it is enabled,
the saved bytes when it is disabled.

* `Rewritten`: what one call writes (`enableHookLL_spec`).
* `Code m₀ m hs`: the code in `m` is that of `m₀`, with the jumps of the enabled hooks.
  `Code.enableHookLL`, `Code.enableRest`: it is kept.
* `enableRest_prefix`: after a loop, the hooks are as they should be up to the one that failed.
-/

namespace Bossran

open Memory

namespace HookEntry

variable (h : HookEntry)

/-- The jump to the detour. -/
def jump : List BYTE :=
  jmpRel 0xE9 (h.pDetour - (h.pPatchTarget + 5)) ++ if h.patchAbove then [0xEB, 0xF9] else []

def window : Region 32 := ⟨h.pPatchTarget, h.patchSize⟩

/-- What stands in the window. -/
def code : List BYTE := if h.isEnabled then h.jump else h.backup

def set (enable : Bool) : HookEntry := { h with isEnabled := enable, queueEnable := enable }

/-- The entry without its flags. -/
def core : HookEntry := { h with isEnabled := false, queueEnable := false }

@[simp] theorem set_isEnabled (e : Bool) : (h.set e).isEnabled = e := rfl

@[simp] theorem set_core (e : Bool) : (h.set e).core = h.core := rfl

@[simp] theorem set_window (e : Bool) : (h.set e).window = h.window := rfl

@[simp] theorem length_jump : h.jump.length = h.patchSize := by
  unfold jump patchSize
  split <;> rfl

theorem patchSize_le : h.patchSize ≤ 7 := by
  unfold patchSize
  split <;> decide

theorem patchSize_pos : 0 < h.patchSize := by
  unfold patchSize
  split <;> decide

theorem mem_window : h.pPatchTarget ∈ h.window := by
  rw [Region.mem_iff, window, BitVec.sub_self]
  exact h.patchSize_pos

/-- The window lies in the code that is read for the target. -/
theorem window_span {x : DWORD} (hx : x ∈ h.window) : x ∈ targetCode h.pTarget := by
  unfold window pPatchTarget patchSize at hx
  split at hx
  · exact Region.mem_of_le hx (by decide)
  · exact mem_targetCode (by decide) hx

end HookEntry

/-! ## One hook -/

/-- From `m` to `m'`, the bytes `code` were written to the window of `h`. -/
structure Rewritten (m m' : AddressSpace) (h : HookEntry) (code : List BYTE) : Prop where
  reads : Reads m'.bytes h.pPatchTarget code
  frame : ∀ x, x ∉ h.window → m'.bytes x = m.bytes x
  outside : ∀ page, (∀ x ∈ h.window, pageOf x ≠ page) → m'.protection page = m.protection page
  /-- The pages of the window get the protection that the first one had. -/
  inside : ∀ page, m'.protection page = m.protection page ∨
    m'.protection page = m.protection (pageOf h.pPatchTarget)

/-- The two jumps, written one after the other. -/
theorem store_jump (b : DWORD → BYTE) (h : HookEntry) :
    let b' := store b h.pPatchTarget (jmpRel 0xE9 (h.pDetour - (h.pPatchTarget + 5)))
    let b' := if h.patchAbove then store b' h.pTarget [0xEB, 0xF9] else b'
    Reads b' h.pPatchTarget h.jump ∧ ∀ x, x ∉ h.window → b' x = b x := by
  dsimp only
  have hfirst : Reads (store b h.pPatchTarget (jmpRel 0xE9 (h.pDetour - (h.pPatchTarget + 5))))
      h.pPatchTarget (jmpRel 0xE9 (h.pDetour - (h.pPatchTarget + 5))) := store_reads _ _ (by simp)
  cases hpa : h.patchAbove with
  | false =>
    rw [if_neg Bool.false_ne_true]
    unfold HookEntry.jump HookEntry.window HookEntry.patchSize
    rw [hpa, if_neg Bool.false_ne_true, if_neg Bool.false_ne_true, List.append_nil]
    exact ⟨hfirst, fun x hx => store_of_notMem (by simp) hx⟩
  | true =>
    have htarget : h.pPatchTarget + BitVec.ofNat 32 5 = h.pTarget := by
      rw [HookEntry.pPatchTarget, hpa, if_pos rfl]
      exact BitVec.sub_add_cancel h.pTarget 5
    rw [if_pos rfl, ← htarget]
    unfold HookEntry.jump HookEntry.window HookEntry.patchSize
    rw [hpa, if_pos rfl, if_pos rfl]
    constructor
    · refine reads_append.mpr ⟨?_, store_reads _ _ (by decide)⟩
      refine hfirst.congr fun x hx => store_of_notMem (by decide) fun hx' => ?_
      exact Region.disjoint_rest h.pPatchTarget (k := 5) (j := 5) (l := 2) (by decide) (by decide)
        x hx hx'
    · intro x hx
      rw [store_of_notMem (by decide) fun hx' => hx (Region.mem_of_part hx' (by decide))]
      exact store_of_notMem (by simp) fun hx' => hx (Region.mem_of_le hx' (show 5 ≤ 7 by decide))

section One

variable {m m' : AddressSpace} {h h' : HookEntry} {enable : Bool} {status : MH_STATUS}

/-- Where `VirtualProtect` puts back the protection. -/
theorem virtualProtect_back (m : AddressSpace) (b : DWORD → BYTE) (h : HookEntry) :
    let r := virtualProtect m h.pPatchTarget h.patchSize PAGE_EXECUTE_READWRITE
    let m' := (virtualProtect { r.1 with bytes := b } h.pPatchTarget h.patchSize r.2).1
    m'.bytes = b ∧ (∀ page, (∀ x ∈ h.window, pageOf x ≠ page) →
      m'.protection page = m.protection page) ∧
    ∀ page, m'.protection page = m.protection page ∨
      m'.protection page = m.protection (pageOf h.pPatchTarget) := by
  refine ⟨rfl, fun page hpage => ?_, fun page => ?_⟩
  · have hnot : ¬ ∃ k < h.patchSize, pageOf (h.pPatchTarget + BitVec.ofNat 32 k) = page := by
      rintro ⟨k, hk, heq⟩
      exact hpage _ (Region.add_mem (r := h.window) hk) heq
    simp only [virtualProtect, if_neg hnot]
  · by_cases hin : ∃ k < h.patchSize, pageOf (h.pPatchTarget + BitVec.ofNat 32 k) = page
    · exact .inr (by simp only [virtualProtect, if_pos hin])
    · exact .inl (by simp only [virtualProtect, if_neg hin])

theorem enableHookLL_spec (hb : h.backup.length = h.patchSize)
    (hr : enableHookLL true m h enable = (m', h', status)) :
    status = .MH_OK ∧ h' = h.set enable ∧ Rewritten m m' h (h.set enable).code := by
  unfold enableHookLL at hr
  rw [if_neg (by decide)] at hr
  dsimp only at hr
  obtain ⟨hm, heq⟩ := Prod.mk.inj hr
  obtain ⟨rfl, rfl⟩ := Prod.mk.inj heq
  generalize hbytes : (if enable = true then _ else _ : DWORD → BYTE) = b at hm
  obtain ⟨hback, hout, hin⟩ := virtualProtect_back m b h
  dsimp only at hback hout hin
  rw [hm] at hback hout hin
  refine ⟨rfl, rfl, ?_⟩
  have hwritten : Reads b h.pPatchTarget (h.set enable).code ∧
      ∀ x, x ∉ h.window → b x = m.bytes x := by
    cases enable with
    | true =>
      rw [if_pos rfl] at hbytes
      rw [← hbytes]
      exact store_jump m.bytes h
    | false =>
      have hsize := h.patchSize_le
      rw [if_neg Bool.false_ne_true] at hbytes
      rw [← hbytes]
      refine ⟨store_reads _ _ (by omega), fun x hx => store_of_notMem (by omega) ?_⟩
      rwa [hb]
  refine ⟨?_, ?_, hout, hin⟩
  · rw [hback]
    exact hwritten.1
  · rw [hback]
    exact hwritten.2

theorem enableHookLL_fails : enableHookLL false m h enable = (m, h, .MH_ERROR_MEMORY_PROTECT) :=
  rfl

end One

/-! ## The code -/

/-- The bytes that an entry saved are those of `m₀`, where the window was in use. -/
structure Saved (m₀ : AddressSpace) (h : HookEntry) : Prop where
  length : h.backup.length = h.patchSize
  reads : Reads m₀.bytes h.pPatchTarget h.backup
  loaded : ∀ x ∈ h.window, Loaded m₀ (pageOf x)

/-- The code in `m` is that of `m₀` with the jumps of the enabled hooks among `hs`. -/
structure Code (m₀ m : AddressSpace) (hs : List HookEntry) : Prop where
  saved : ∀ h ∈ hs, Saved m₀ h
  apart : hs.Pairwise fun h g => h.window.Disjoint g.window
  enabled : ∀ h ∈ hs, h.isEnabled → Reads m.bytes h.pPatchTarget h.jump
  rest : ∀ x, Loaded m₀ (pageOf x) → (∀ h ∈ hs, h.isEnabled → x ∉ h.window) →
    m.bytes x = m₀.bytes x

/-- From `m` to `m'`, only what was in use in `m₀` has changed, and it stays in use. -/
structure CodeOnly (m₀ m m' : AddressSpace) : Prop where
  bytes : ∀ x, ¬ Loaded m₀ (pageOf x) → m'.bytes x = m.bytes x
  protection : ∀ page, ¬ Loaded m₀ page → m'.protection page = m.protection page
  loaded : (∀ page, Loaded m₀ page → m.protection page ≠ 0) →
    ∀ page, Loaded m₀ page → m'.protection page ≠ 0

theorem CodeOnly.refl (m₀ m : AddressSpace) : CodeOnly m₀ m m :=
  ⟨fun _ _ => rfl, fun _ _ => rfl, id⟩

theorem CodeOnly.trans {m₀ m m' m'' : AddressSpace} (h : CodeOnly m₀ m m')
    (h' : CodeOnly m₀ m' m'') : CodeOnly m₀ m m'' where
  bytes x hx := (h'.bytes x hx).trans (h.bytes x hx)
  protection page hpage := (h'.protection page hpage).trans (h.protection page hpage)
  loaded hl := h'.loaded (h.loaded hl)

theorem Rewritten.codeOnly {m₀ m m' : AddressSpace} {h : HookEntry} {bs : List BYTE}
    (hr : Rewritten m m' h bs) (hs : Saved m₀ h) : CodeOnly m₀ m m' where
  bytes x hx := hr.frame x fun hx' => hx (hs.loaded x hx')
  protection page hpage := hr.outside page fun x hx heq => hpage (heq ▸ hs.loaded x hx)
  loaded hl page hpage := by
    obtain heq | heq := hr.inside page
    · rw [heq]
      exact hl page hpage
    · rw [heq]
      exact hl _ (hs.loaded _ h.mem_window)

namespace Code

variable {m₀ m m' : AddressSpace} {pre post hs hs' : List HookEntry} {h h' : HookEntry}
  {protect : Nat → Bool} {want : HookEntry → Bool} {pos : Nat} {status : MH_STATUS}

theorem windows_apart (hc : Code m₀ m (pre ++ h :: post)) {g : HookEntry}
    (hg : g ∈ pre ∨ g ∈ post) : g.window.Disjoint h.window := by
  obtain ⟨-, hpost, hcross⟩ := List.pairwise_append.mp hc.apart
  obtain hg | hg := hg
  · exact hcross g hg h (List.mem_cons_self ..)
  · exact ((List.pairwise_cons.mp hpost).1 g hg).symm

/-- A hook is enabled or disabled. -/
theorem rewrite (hc : Code m₀ m (pre ++ h :: post)) {enable : Bool}
    (hr : Rewritten m m' h (h.set enable).code) : Code m₀ m' (pre ++ h.set enable :: post) where
  saved g hg := by
    rw [List.mem_append, List.mem_cons, or_left_comm] at hg
    have hmem : ∀ g, g = h ∨ g ∈ pre ∨ g ∈ post → g ∈ pre ++ h :: post := fun g hg => by
      rwa [List.mem_append, List.mem_cons, or_left_comm]
    rcases hg with rfl | hg
    · obtain ⟨hlen, hreads, hload⟩ := hc.saved h (hmem h (.inl rfl))
      exact ⟨hlen, hreads, hload⟩
    · exact hc.saved g (hmem g (.inr hg))
  apart := by
    have hap := hc.apart
    rw [List.pairwise_append, List.pairwise_cons] at hap ⊢
    obtain ⟨hpre, hpost, hcross⟩ := hap
    refine ⟨hpre, hpost, fun g hg g' hg' => ?_⟩
    rcases List.mem_cons.mp hg' with rfl | hg'
    · exact hcross g hg h (List.mem_cons_self ..)
    · exact hcross g hg g' (List.mem_cons_of_mem _ hg')
  enabled g hg hen := by
    rw [List.mem_append, List.mem_cons, or_left_comm] at hg
    rcases hg with rfl | hg
    · have hcode := hr.reads
      rwa [HookEntry.code, if_pos hen] at hcode
    · have hmem : g ∈ pre ++ h :: post := by
        rw [List.mem_append, List.mem_cons]
        exact hg.imp_right .inr
      have hold := hc.enabled g hmem hen
      refine hold.congr fun x hx => hr.frame x (hc.windows_apart hg x ?_)
      rwa [HookEntry.length_jump] at hx
  rest x hx hnot := by
    by_cases hin : x ∈ h.window
    · -- the window of a hook that is disabled now
      have hdis : enable = false := by
        by_contra hen
        rw [Bool.not_eq_false] at hen
        exact hnot (h.set enable) (List.mem_append_right _ (List.mem_cons_self ..)) hen hin
      subst hdis
      have hsaved := hc.saved h (List.mem_append_right _ (List.mem_cons_self ..))
      obtain ⟨k, hk, rfl⟩ := Region.mem_iff_exists.mp hin
      have hk' : k < h.backup.length := by rw [hsaved.length]; exact hk
      exact (hr.reads k hk').trans (hsaved.reads k hk').symm
    · rw [hr.frame x hin]
      refine hc.rest x hx fun g hg hen => ?_
      rw [List.mem_append, List.mem_cons, or_left_comm] at hg
      rcases hg with rfl | hg
      · exact hin
      · refine hnot g ?_ hen
        rw [List.mem_append, List.mem_cons]
        exact hg.imp_right .inr

/-- A call of `EnableHookLL`, whether or not it fails. -/
theorem enableHookLL (hc : Code m₀ m (pre ++ h :: post)) {allowed enable : Bool}
    (hr : Bossran.enableHookLL allowed m h enable = (m', h', status)) :
    (status = .MH_OK ∧ allowed ∧ h' = h.set enable ∧ Rewritten m m' h (h.set enable).code ∨
      status = .MH_ERROR_MEMORY_PROTECT ∧ ¬ allowed ∧ h' = h ∧ m' = m) ∧
    Code m₀ m' (pre ++ h' :: post) ∧ CodeOnly m₀ m m' := by
  have hsaved := hc.saved h (List.mem_append_right _ (List.mem_cons_self ..))
  cases allowed with
  | true =>
    obtain ⟨rfl, rfl, hw⟩ := enableHookLL_spec hsaved.length hr
    exact ⟨.inl ⟨rfl, rfl, rfl, hw⟩, hc.rewrite hw, hw.codeOnly hsaved⟩
  | false =>
    rw [enableHookLL_fails] at hr
    obtain ⟨rfl, heq⟩ := Prod.mk.inj hr
    obtain ⟨rfl, rfl⟩ := Prod.mk.inj heq
    exact ⟨.inr ⟨rfl, Bool.false_ne_true, rfl, rfl⟩, hc, CodeOnly.refl ..⟩

/-- The loop over the hooks. -/
theorem enableRest (hc : Code m₀ m (pre ++ hs))
    (hr : Bossran.enableRest protect want pos m hs = (m', hs', status)) :
    Code m₀ m' (pre ++ hs') ∧ CodeOnly m₀ m m' := by
  induction hs generalizing pre m pos hs' m' status with
  | nil =>
    obtain ⟨rfl, heq⟩ := Prod.mk.inj hr
    obtain ⟨rfl, -⟩ := Prod.mk.inj heq
    exact ⟨hc, CodeOnly.refl ..⟩
  | cons h hs ih =>
    rw [Bossran.enableRest] at hr
    split at hr
    · generalize hrest : Bossran.enableRest protect want (pos + 1) m hs = r at hr
      obtain ⟨m₁, hs₁, st⟩ := r
      obtain ⟨rfl, heq⟩ := Prod.mk.inj hr
      obtain ⟨rfl, -⟩ := Prod.mk.inj heq
      rw [List.append_cons] at hc ⊢
      exact ih hc hrest
    · split at hr
      · rename_i m₁ h₁ hone
        generalize hrest : Bossran.enableRest protect want (pos + 1) m₁ hs = r at hr
        obtain ⟨m₂, hs₂, st⟩ := r
        obtain ⟨rfl, heq⟩ := Prod.mk.inj hr
        obtain ⟨rfl, -⟩ := Prod.mk.inj heq
        obtain ⟨-, hc₁, honly⟩ := hc.enableHookLL hone
        rw [List.append_cons] at hc₁ ⊢
        obtain ⟨hc₂, honly'⟩ := ih hc₁ hrest
        exact ⟨hc₂, honly.trans honly'⟩
      · rename_i m₁ h₁ st _ hone
        obtain ⟨rfl, heq⟩ := Prod.mk.inj hr
        obtain ⟨rfl, -⟩ := Prod.mk.inj heq
        obtain ⟨-, hc₁, honly⟩ := hc.enableHookLL hone
        exact ⟨hc₁, honly⟩

end Code

/-! ## How far a loop gets -/

/-- The hook as it should be. -/
def HookEntry.switch (want : HookEntry → Bool) (h : HookEntry) : HookEntry :=
  if h.isEnabled = want h then h else h.set (want h)

section Prefix

variable {protect : Nat → Bool} {want : HookEntry → Bool} {pos : Nat} {m m' : AddressSpace}
  {hs hs' : List HookEntry} {status : MH_STATUS}

@[simp] theorem HookEntry.switch_core (h : HookEntry) : (h.switch want).core = h.core := by
  unfold HookEntry.switch
  split <;> rfl

/-- The first `k` hooks are as they should be. The loop ends early at a hook for which
`VirtualProtect` fails. -/
theorem enableRest_prefix (hb : ∀ h ∈ hs, h.backup.length = h.patchSize)
    (hr : enableRest protect want pos m hs = (m', hs', status)) :
    ∃ k, hs' = (hs.take k).map (HookEntry.switch want) ++ hs.drop k ∧
      (status = .MH_OK ∧ hs.length ≤ k ∨ status = .MH_ERROR_MEMORY_PROTECT ∧
        ∃ h, hs[k]? = some h ∧ h.isEnabled ≠ want h ∧ ¬ protect (pos + k)) := by
  induction hs generalizing m pos hs' m' status with
  | nil =>
    obtain ⟨-, heq⟩ := Prod.mk.inj hr
    obtain ⟨rfl, rfl⟩ := Prod.mk.inj heq
    exact ⟨0, rfl, .inl ⟨rfl, Nat.le_refl _⟩⟩
  | cons h hs ih =>
    have hb' : ∀ g ∈ hs, g.backup.length = g.patchSize := fun g hg =>
      hb g (List.mem_cons_of_mem _ hg)
    -- the loop goes on behind `h`
    have hnext : ∀ {m₁ m₂ : AddressSpace} {hs₁ : List HookEntry} {st : MH_STATUS},
        enableRest protect want (pos + 1) m₁ hs = (m₂, hs₁, st) →
        ∃ k, h.switch want :: hs₁ =
          ((h :: hs).take k).map (HookEntry.switch want) ++ (h :: hs).drop k ∧
          (st = .MH_OK ∧ (h :: hs).length ≤ k ∨ st = .MH_ERROR_MEMORY_PROTECT ∧
            ∃ g, (h :: hs)[k]? = some g ∧ g.isEnabled ≠ want g ∧ ¬ protect (pos + k)) := by
      intro m₁ m₂ hs₁ st hrest
      obtain ⟨k, rfl, hst⟩ := ih hb' hrest
      refine ⟨k + 1, rfl, hst.imp (And.imp_right Nat.succ_le_succ) (And.imp_right ?_)⟩
      rintro ⟨g, hg, hne, hp⟩
      exact ⟨g, hg, hne, by rwa [Nat.add_comm k 1, ← Nat.add_assoc]⟩
    rw [enableRest] at hr
    split at hr
    · rename_i hsame
      generalize hrest : enableRest protect want (pos + 1) m hs = r at hr
      obtain ⟨m₁, hs₁, st⟩ := r
      obtain ⟨-, heq⟩ := Prod.mk.inj hr
      obtain ⟨rfl, rfl⟩ := Prod.mk.inj heq
      have hswitch : h.switch want = h := if_pos hsame
      have hk := hnext hrest
      rwa [hswitch] at hk
    · rename_i hdiff
      have hlen := hb h (List.mem_cons_self ..)
      have hswitch : h.switch want = h.set (want h) := if_neg hdiff
      cases hp : protect pos with
      | true =>
        generalize hone : enableHookLL (protect pos) m h (want h) = r at hr
        obtain ⟨m₁, h₁, st₁⟩ := r
        rw [hp] at hone
        obtain ⟨rfl, rfl, -⟩ := enableHookLL_spec hlen hone
        dsimp only at hr
        generalize hrest : enableRest protect want (pos + 1) m₁ hs = r at hr
        obtain ⟨m₂, hs₂, st⟩ := r
        obtain ⟨-, heq⟩ := Prod.mk.inj hr
        obtain ⟨rfl, rfl⟩ := Prod.mk.inj heq
        have hk := hnext hrest
        rwa [hswitch] at hk
      | false =>
        rw [hp, enableHookLL_fails] at hr
        obtain ⟨-, heq⟩ := Prod.mk.inj hr
        obtain ⟨rfl, rfl⟩ := Prod.mk.inj heq
        have hfails : ¬ protect (pos + 0) := by
          rw [Nat.add_zero, hp]
          exact Bool.false_ne_true
        exact ⟨0, rfl, .inr ⟨rfl, h, rfl, hdiff, hfails⟩⟩

end Prefix

end Bossran
