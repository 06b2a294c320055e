import BossranMenu.Lib.Memory

/-!
# Patterns with unknown cells, and the first match of one in a memory

A pattern is a list of cells, `none` where any value will do. `Window m a p` says that the cells
from `a` upwards match `p`.

* `firstMatch m base n p` is the least offset below `n` from `base` at which `p` matches.
* `NoStraddle p q`: wherever a window of `p` and a window of `q` overlap, some common cell has
  different known values in the two. So a memory in which `q` stands at some address has no match
  of `p` that touches it (`not_window_of_noStraddle`).
* `firstMatch_congr`: a memory that was changed only under patches that the pattern cannot
  straddle, none of which touches the first match, has the same first match.
-/

namespace Memory

variable {w : Nat} {β : Type}

/-- The cells from `a` upwards match `p`. -/
def Window (m : BitVec w → β) (a : BitVec w) (p : List (Option β)) : Prop :=
  ∀ i (hi : i < p.length), ∀ b ∈ p[i], m (a + BitVec.ofNat w i) = b

/-- The addresses of a window. -/
def windowRegion (a : BitVec w) (p : List (Option β)) : Region w := ⟨a, p.length⟩

theorem window_iff_all [DecidableEq β] {m : BitVec w → β} {a : BitVec w} {p : List (Option β)} :
    Window m a p ↔
      (∀ i < p.length, ∀ b ∈ p[i]?.join, m (a + BitVec.ofNat w i) = b) := by
  constructor
  · intro h i hi b hb
    exact h i hi b (by simpa [List.getElem?_eq_getElem hi] using hb)
  · intro h i hi b hb
    exact h i hi b (by simpa [List.getElem?_eq_getElem hi] using hb)

instance [DecidableEq β] (m : BitVec w → β) (a : BitVec w) (p : List (Option β)) :
    Decidable (Window m a p) :=
  decidable_of_iff _ window_iff_all.symm

theorem Window.congr {m m' : BitVec w → β} {a : BitVec w} {p : List (Option β)}
    (h : ∀ x ∈ windowRegion a p, m' x = m x) : Window m' a p ↔ Window m a p := by
  have hcell : ∀ i < p.length, m' (a + BitVec.ofNat w i) = m (a + BitVec.ofNat w i) :=
    fun i hi => h _ (Region.add_mem (r := windowRegion a p) hi)
  constructor <;> intro hw i hi b hb
  · rw [← hcell i hi]
    exact hw i hi b hb
  · rw [hcell i hi]
    exact hw i hi b hb

/-- A pattern without unknown cells matches where its cells can be read. -/
theorem window_map_some {m : BitVec w → β} {a : BitVec w} {bs : List β} :
    Window m a (bs.map some) ↔ Reads m a bs := by
  constructor
  · intro h i hi
    exact h i (by simpa using hi) _ (by simp)
  · intro h i hi b hb
    simp only [List.getElem_map, Option.mem_def, Option.some.injEq] at hb
    rw [← hb]
    exact h i (by simpa using hi)

/-- Cells that can be read match every pattern that knows no other value of them. -/
theorem Reads.window {m : BitVec w → β} {a : BitVec w} {bs : List β} {p : List (Option β)}
    (h : Reads m a bs) (hp : ∀ (i : Nat) (b : β), p[i]? = some (some b) → bs[i]? = some b) :
    Window m a p := by
  intro i hi b hb
  obtain ⟨hib, he⟩ := List.getElem?_eq_some_iff.mp
    (hp i b (by rw [List.getElem?_eq_getElem hi, Option.mem_def.mp hb]))
  rw [h i hib, he]

/-! ## The first match -/

/-- The least offset below `n` from `base` at which `p` matches. -/
def firstMatch [DecidableEq β] (m : BitVec w → β) (base : BitVec w) (n : Nat)
    (p : List (Option β)) : Option Nat :=
  (List.range n).find? fun i => decide (Window m (base + BitVec.ofNat w i) p)

section FirstMatch

variable [DecidableEq β] {m m' : BitVec w → β} {base : BitVec w} {n i : Nat} {p : List (Option β)}

theorem firstMatch_eq_some :
    firstMatch m base n p = some i ↔
      i < n ∧ Window m (base + BitVec.ofNat w i) p ∧
        ∀ j < i, ¬ Window m (base + BitVec.ofNat w j) p := by
  unfold firstMatch
  rw [List.find?_range_eq_some]
  simp only [decide_eq_true_eq, List.mem_range, Bool.not_eq_true', decide_eq_false_iff_not]
  tauto

theorem firstMatch_eq_none :
    firstMatch m base n p = none ↔ ∀ j < n, ¬ Window m (base + BitVec.ofNat w j) p := by
  unfold firstMatch
  rw [List.find?_range_eq_none]
  simp only [Bool.not_eq_true', decide_eq_false_iff_not]

/-- A match below `n` is found, at or before it. -/
theorem firstMatch_of_window (hi : i < n) (hw : Window m (base + BitVec.ofNat w i) p) :
    ∃ j ≤ i, firstMatch m base n p = some j := by
  cases hf : firstMatch m base n p with
  | none => exact absurd hw (firstMatch_eq_none.mp hf i hi)
  | some j =>
    refine ⟨j, ?_, rfl⟩
    by_contra hij
    exact (firstMatch_eq_some.mp hf).2.2 i (by omega) hw

end FirstMatch

/-! ## Patches that a pattern cannot straddle -/

/-- `q` laid over `p` from cell `d` of `p` on: some cell has two different known values. -/
def Clash [DecidableEq β] (p q : List (Option β)) (d : Nat) : Bool :=
  (List.range q.length).any fun i =>
    match p[d + i]?, q[i]? with
    | some (some x), some (some y) => x ≠ y
    | _, _ => false

/-- However a window of `p` and a window of `q` overlap, they clash. -/
def NoStraddle [DecidableEq β] (p q : List (Option β)) : Prop :=
  (∀ d < p.length, Clash p q d) ∧ ∀ d < q.length, Clash q p d

instance [DecidableEq β] (p q : List (Option β)) : Decidable (NoStraddle p q) :=
  inferInstanceAs (Decidable (_ ∧ _))

section Straddle

variable [DecidableEq β] {m m' : BitVec w → β} {a b : BitVec w} {p q : List (Option β)}

/-- Two windows of one memory do not clash. -/
theorem not_clash {d : Nat} (hp : Window m b p) (hq : Window m (b + BitVec.ofNat w d) q) :
    Clash p q d = false := by
  rw [← Bool.not_eq_true]
  intro hc
  unfold Clash at hc
  rw [List.any_eq_true] at hc
  obtain ⟨i, hi, hc⟩ := hc
  rw [List.mem_range] at hi
  split at hc
  · rename_i x y hx hy
    obtain ⟨hdi, hx⟩ := List.getElem?_eq_some_iff.mp hx
    obtain ⟨_, hy⟩ := List.getElem?_eq_some_iff.mp hy
    have h1 := hp (d + i) hdi x (by rw [hx]; rfl)
    have h2 := hq i hi y (by rw [hy]; rfl)
    rw [add_ofNat_add] at h2
    rw [h1] at h2
    simp [h2] at hc
  · cases hc

/-- Where a patch stands, no window of a pattern that cannot straddle it touches it. -/
theorem not_window_of_noStraddle (hs : NoStraddle p q) (hq : Window m a q)
    (ho : ¬ (windowRegion a q).Disjoint (windowRegion b p)) : ¬ Window m b p := by
  intro hp
  rw [Region.disjoint_iff] at ho
  simp only [not_forall, not_not] at ho
  obtain ⟨i, hi, hmem⟩ := ho
  obtain ⟨j, hj, hij⟩ := Region.mem_iff_exists.mp hmem
  simp only [windowRegion] at hi hj hij
  -- The common cell is number `i` of the patch and number `j` of the window: the one that starts
  -- first has the other at the distance of the two numbers.
  rcases Nat.le_total i j with h | h
  · have ha : a = b + BitVec.ofNat w (j - i) := by
      have hsum : b + BitVec.ofNat w (j - i) + BitVec.ofNat w i = a + BitVec.ofNat w i := by
        rw [add_ofNat_add, Nat.sub_add_cancel h, hij]
      exact (add_right_cancel hsum).symm
    have hc := hs.1 (j - i) (by omega)
    rw [not_clash hp (ha ▸ hq)] at hc
    cases hc
  · have hb : b = a + BitVec.ofNat w (i - j) := by
      have hsum : a + BitVec.ofNat w (i - j) + BitVec.ofNat w j = b + BitVec.ofNat w j := by
        rw [add_ofNat_add, Nat.sub_add_cancel h, hij]
      exact (add_right_cancel hsum).symm
    have hc := hs.2 (i - j) (by omega)
    rw [not_clash hq (hb ▸ hp)] at hc
    cases hc

/-- A patch: where it stands and what is known of its cells. -/
structure Patch (w : Nat) (β : Type) where
  addr : BitVec w
  known : List (Option β)

def Patch.region (e : Patch w β) : Region w := windowRegion e.addr e.known

/-- The memory differs from `m` only under patches, and every patch stands. -/
structure Patched (m m' : BitVec w → β) (es : List (Patch w β)) : Prop where
  frame : ∀ x, (∀ e ∈ es, x ∉ e.region) → m' x = m x
  stands : ∀ e ∈ es, Window m' e.addr e.known

omit [DecidableEq β] in
theorem Patched.refl (m : BitVec w → β) : Patched m m [] :=
  ⟨fun _ _ => rfl, fun _ h => by cases h⟩

omit [DecidableEq β] in
/-- A further change under a patch that touches no earlier one. -/
theorem Patched.snoc {m'' : BitVec w → β} {es : List (Patch w β)} {e : Patch w β}
    (h : Patched m m' es) (hf : ∀ x ∉ e.region, m'' x = m' x) (hw : Window m'' e.addr e.known)
    (hd : ∀ d ∈ es, d.region.Disjoint e.region) : Patched m m'' (es ++ [e]) := by
  constructor
  · intro x hx
    rw [hf x (hx e (by simp)), h.frame x fun d hd' => hx d (by simp [hd'])]
  · intro d hd'
    rcases List.mem_append.mp hd' with hd' | hd'
    · exact (Window.congr fun x hx => hf x (hd d hd' x hx)).mpr (h.stands d hd')
    · rw [List.mem_singleton.mp hd']
      exact hw

/-- Patches that a pattern cannot straddle create no match of it. -/
theorem Patched.window_of_window {es : List (Patch w β)} (h : Patched m m' es)
    (hs : ∀ e ∈ es, NoStraddle p e.known) (hw : Window m' b p) : Window m b p := by
  by_cases hd : ∀ e ∈ es, e.region.Disjoint (windowRegion b p)
  · refine (Window.congr fun x hx => ?_).mp hw
    exact h.frame x fun e he hxe => hd e he x hxe hx
  · push Not at hd
    obtain ⟨e, he, hd⟩ := hd
    exact absurd hw (not_window_of_noStraddle (hs e he) (h.stands e he) hd)

/-- The first match of a pattern survives patches that the pattern cannot straddle and that do not
touch it, and no earlier match appears. -/
theorem firstMatch_congr {es : List (Patch w β)} {base : BitVec w} {n i : Nat}
    (h : Patched m m' es) (hs : ∀ e ∈ es, NoStraddle p e.known)
    (hi : firstMatch m base n p = some i)
    (hd : ∀ e ∈ es, e.region.Disjoint (windowRegion (base + BitVec.ofNat w i) p)) :
    firstMatch m' base n p = some i := by
  rw [firstMatch_eq_some] at hi ⊢
  obtain ⟨hin, hw, hmin⟩ := hi
  refine ⟨hin, ?_, fun j hj hw' => hmin j hj (h.window_of_window hs hw')⟩
  refine (Window.congr fun x hx => ?_).mpr hw
  exact h.frame x fun e he hxe => hd e he x hxe hx

end Straddle

end Memory
