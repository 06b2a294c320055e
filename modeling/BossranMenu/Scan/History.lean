import BossranMenu.Scan.Session

/-!
# Toggle histories

`BooleanFunct` writes every range of every toggle at each call, except the one of `space`, which
has no off branch. So what two histories leave behind can differ at `SPACEaddress` only.

* `session_calls_agree`: a range that the last call covers ends up alike after any two histories.
* `session_calls_space`: `SPACEaddress` remembers whether `space` was ever on.
* `historyIndependent_iff`: when two histories that end with the same flags end with the same bytes.
-/

namespace Bossran

open Memory

/-- A call of `BooleanFunct` after each assignment of the flags. -/
def calls (fs : List Flags) : List Step := fs.flatMap fun f => [.setFlags f, .booleanFunct]

theorem session_calls_snoc (s : World) (fs : List Flags) (f : Flags) :
    session s (calls (fs ++ [f])) = booleanFunct { session s (calls fs) with flags := f } := by
  rw [calls, List.flatMap_append, ← calls, session_append]
  rfl

/-- The stores of the last call. -/
theorem session_calls_mem (s : World) (fs : List Flags) (f : Flags) :
    (session s (calls (fs ++ [f]))).mem.bytes =
      writeAll (session s (calls fs)).mem.bytes (s.writes (toggleCalls f)) := by
  rw [session_calls_snoc, booleanFunct_mem]
  have h : World.writes { session s (calls fs) with flags := f } (toggleCalls f) =
      s.writes (toggleCalls f) := World.writes_congr (session_site s _) _
  rw [h]

theorem writes_small (s : World) (f : Flags) :
    ∀ e ∈ s.writes (toggleCalls f), e.data.length ≤ 2 ^ 32 := by
  intro e he
  obtain ⟨c, hc, rfl⟩ := List.mem_map.mp he
  have := (toggleCalls_small hc).2
  simp only
  omega

/-- The last call decides a byte that it writes. -/
theorem session_calls_agree {s : World} (A B : List Flags) {f : Flags} {r : Target × Nat}
    (hr : r ∈ (toggleCalls f).map callRange) {x : DWORD}
    (hx : x ∈ (⟨s.address r.1, r.2⟩ : Region 32)) :
    (session s (calls (A ++ [f]))).mem.bytes x = (session s (calls (B ++ [f]))).mem.bytes x := by
  rw [session_calls_mem, session_calls_mem]
  obtain ⟨c, hc, rfl⟩ := List.mem_map.mp hr
  exact writeAll_agree (writes_small s f) (.inr ⟨_, List.mem_map_of_mem hc, hx⟩)

/-! ## The range of `space` -/

/-- Another toggle writes over `SPACEaddress`. -/
def SpaceShared (s : World) : Prop :=
  ∃ r ∈ toggleRanges, r.1 ≠ .fixed SPACEaddress ∧ SPACEaddress ∈ (⟨s.address r.1, r.2⟩ : Region 32)

instance (s : World) : Decidable (SpaceShared s) :=
  inferInstanceAs (Decidable (∃ r ∈ toggleRanges, _))

theorem mem_space (s : World) :
    SPACEaddress ∈ (⟨s.address (.fixed SPACEaddress), 1⟩ : Region 32) :=
  Region.mem_one.mpr rfl

theorem space_mem_toggleRanges : (.fixed SPACEaddress, 1) ∈ toggleRanges := by decide

/-- Only `space` writes at the literal `SPACEaddress`, and only while it is on. -/
theorem toggleCalls_space {f : Flags} {c : Target × List BYTE} (hc : c ∈ toggleCalls f)
    (ht : c.1 = .fixed SPACEaddress) : f .space = true ∧ c.2 = [0x32] := by
  have hon : ∀ t ∈ toggles, ∀ c ∈ t.on, c.1 = .fixed SPACEaddress →
      t.flag = .space ∧ c.2 = [0x32] := by decide
  have hoff : ∀ t ∈ toggles, ∀ c ∈ t.off, c.1 ≠ .fixed SPACEaddress := by decide
  obtain ⟨t, htt, hct⟩ := List.mem_flatMap.mp hc
  unfold Toggle.calls at hct
  split at hct
  · rename_i hf
    obtain ⟨hflag, hbs⟩ := hon t htt c hct ht
    exact ⟨hflag ▸ hf, hbs⟩
  · exact absurd ht (hoff t htt c hct)

/-- If no other toggle writes there, `SPACEaddress` holds `0x32` once `space` was on. -/
theorem session_calls_space {s : World} (hs : ¬ SpaceShared s) (fs : List Flags) :
    (session s (calls fs)).mem.bytes SPACEaddress =
      if ∃ f ∈ fs, f .space = true then 0x32 else s.mem.bytes SPACEaddress := by
  induction fs using List.reverseRecOn with
  | nil => rfl
  | append_singleton fs f ih =>
    -- The stores of a call that cover `SPACEaddress` are those of `space`.
    have hcover : ∀ c ∈ toggleCalls f, SPACEaddress ∈ (⟨s.address c.1, c.2.length⟩ : Region 32) →
        c.1 = .fixed SPACEaddress := by
      intro c hc hx
      by_contra hne
      exact hs ⟨callRange c, (toggleCalls_sublist f).subset (List.mem_map_of_mem hc), hne, hx⟩
    rw [session_calls_mem]
    by_cases hf : f .space = true
    · rw [if_pos ⟨f, by simp, hf⟩]
      refine writeAll_const (writes_small s f) ?_ (.inr ?_)
      · intro e he h d hd
        obtain ⟨c, hc, rfl⟩ := List.mem_map.mp he
        rw [(toggleCalls_space hc (hcover c hc h)).2] at hd
        exact List.mem_singleton.mp hd
      · obtain ⟨c, hc, hr⟩ := List.mem_map.mp
          (toggleCalls_covers f space_mem_toggleRanges fun _ => hf)
        obtain ⟨ht, hl⟩ := Prod.mk.inj hr
        refine ⟨_, List.mem_map_of_mem hc, ?_⟩
        simp only [Write.region, hl, ht]
        exact mem_space s
    · rw [writeAll_frame (writes_small s f), ih]
      · have : (∃ g ∈ fs ++ [f], g .space = true) ↔ ∃ g ∈ fs, g .space = true := by
          simp [hf]
        simp only [this]
      · intro e he hx
        obtain ⟨c, hc, rfl⟩ := List.mem_map.mp he
        exact hf (toggleCalls_space hc (hcover c hc hx)).1

/-! ## Two histories -/

/-- Two histories that end with the flags `f` end with the same bytes in all ranges of the
toggles. -/
def HistoryIndependent (s : World) (A B : List Flags) (f : Flags) : Prop :=
  ∀ r ∈ toggleRanges, ∀ x ∈ (⟨s.address r.1, r.2⟩ : Region 32),
    (session s (calls (A ++ [f]))).mem.bytes x = (session s (calls (B ++ [f]))).mem.bytes x

/-- Two histories that end with the same flags agree unless `space` is off at the end and was on in
only one of them (or `SPACEaddress` held the patched value anyway, or another toggle rewrites
it). -/
theorem historyIndependent_iff (s : World) (A B : List Flags) (f : Flags) :
    HistoryIndependent s A B f ↔
      f .space = true ∨ SpaceShared s ∨ s.mem.bytes SPACEaddress = 0x32 ∨
        ((∃ g ∈ A, g .space = true) ↔ ∃ g ∈ B, g .space = true) := by
  -- A last call with `space` off adds nothing to the history of `SPACEaddress`.
  have hlast : ¬ f .space = true → ∀ fs : List Flags,
      (∃ g ∈ fs ++ [f], g .space = true) ↔ ∃ g ∈ fs, g .space = true := by
    intro hf fs
    simp [hf]
  constructor
  · intro h
    by_contra hn
    push Not at hn
    obtain ⟨hf, hs, hm, hAB⟩ := hn
    have hx := h _ space_mem_toggleRanges _ (mem_space s)
    rw [session_calls_space hs, session_calls_space hs] at hx
    simp only [hlast hf] at hx
    rcases hAB with ⟨hA, hB⟩ | ⟨hA, hB⟩
    · rw [if_pos hA, if_neg (by simpa using hB)] at hx
      exact hm hx.symm
    · rw [if_neg (by simpa using hA), if_pos hB] at hx
      exact hm hx
  · intro h r hr x hx
    by_cases hcov : r = (.fixed SPACEaddress, 1) → f .space = true
    · exact session_calls_agree A B (toggleCalls_covers f hr hcov) hx
    · push Not at hcov
      obtain ⟨rfl, hf⟩ := hcov
      obtain rfl : x = SPACEaddress := Region.mem_one.mp hx
      by_cases hs : SpaceShared s
      · obtain ⟨r, hr, hne, hx⟩ := hs
        exact session_calls_agree A B
          (toggleCalls_covers f hr (by rintro rfl; exact absurd rfl hne)) hx
      · rw [session_calls_space hs, session_calls_space hs]
        simp only [hlast hf]
        rcases h with h | h | h | h
        · exact absurd h hf
        · exact absurd h hs
        · rw [h]
          split <;> split <;> rfl
        · simp only [h]

/-- Switching `space` on and off again leaves `0x32` behind. -/
theorem not_historyIndependent_space :
    ¬ HistoryIndependent (World.init ⟨fun _ => 0, fun _ => 0x20⟩) [fun f => f = .space] []
      (fun _ => false) := by
  intro h
  have hx := h _ space_mem_toggleRanges _ (mem_space _)
  rw [session_calls_space (by decide), session_calls_space (by decide)] at hx
  revert hx
  decide

end Bossran
