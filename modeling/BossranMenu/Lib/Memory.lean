import Mathlib.Data.BitVec
import Mathlib.Tactic.Ring

/-!
# Byte-addressed memory with wrapping addresses

A memory is a total map from `w`-bit addresses to cells. Addresses wrap: a region is a first
address and a size, and an address belongs to it when its distance above the first address, taken
modulo `2 ^ w`, is below the size. No lemma needs the region to end below `2 ^ w`.

* `store m a bs` writes `bs` from address `a` upwards, one cell at a time.
* `Reads m a bs`: the cells from `a` upwards hold `bs`.
* `writeAll m ws` is a batch of stores. A cell that no store of the batch covers keeps its value
  (`writeAll_frame`); a cell that some store covers gets a value that does not depend on the memory
  before the batch (`writeAll_agree`); in a batch of pairwise disjoint stores every one of them
  reads back (`writeAll_reads`).
-/

namespace Memory

variable {w : Nat} {β : Type}

/-! ## Regions -/

/-- A range of addresses, which may wrap around the end of the address space. -/
structure Region (w : Nat) where
  base : BitVec w
  size : Nat
  deriving DecidableEq

instance : Membership (BitVec w) (Region w) := ⟨fun r x => (x - r.base).toNat < r.size⟩

theorem Region.mem_iff {r : Region w} {x : BitVec w} : x ∈ r ↔ (x - r.base).toNat < r.size :=
  Iff.rfl

instance (x : BitVec w) (r : Region w) : Decidable (x ∈ r) :=
  decidable_of_iff _ Region.mem_iff.symm

/-- The address at distance `(x - a)` above `a` is `x`. -/
theorem add_offset (a x : BitVec w) : a + BitVec.ofNat w (x - a).toNat = x := by
  rw [BitVec.ofNat_toNat, BitVec.setWidth_eq, BitVec.add_comm, BitVec.sub_add_cancel]

theorem offset_add_le (a : BitVec w) (k : Nat) : (a + BitVec.ofNat w k - a).toNat ≤ k := by
  rw [BitVec.add_comm, BitVec.add_sub_cancel, BitVec.toNat_ofNat]
  exact Nat.mod_le _ _

theorem offset_add (a : BitVec w) {k : Nat} (hk : k < 2 ^ w) :
    (a + BitVec.ofNat w k - a).toNat = k := by
  rw [BitVec.add_comm, BitVec.add_sub_cancel, BitVec.toNat_ofNat, Nat.mod_eq_of_lt hk]

theorem add_ofNat_add (a : BitVec w) (i j : Nat) :
    a + BitVec.ofNat w i + BitVec.ofNat w j = a + BitVec.ofNat w (i + j) := by
  rw [BitVec.ofNat_add, BitVec.add_assoc]

theorem Region.add_mem {r : Region w} {k : Nat} (hk : k < r.size) :
    r.base + BitVec.ofNat w k ∈ r :=
  Nat.lt_of_le_of_lt (offset_add_le _ _) hk

/-- The addresses of a region are the first `size` ones from its base. -/
theorem Region.mem_iff_exists {r : Region w} {x : BitVec w} :
    x ∈ r ↔ ∃ k < r.size, x = r.base + BitVec.ofNat w k := by
  constructor
  · intro h
    exact ⟨_, h, (add_offset _ _).symm⟩
  · rintro ⟨k, hk, rfl⟩
    exact Region.add_mem hk

theorem Region.forall_mem {r : Region w} {P : BitVec w → Prop} :
    (∀ x ∈ r, P x) ↔ ∀ k < r.size, P (r.base + BitVec.ofNat w k) := by
  constructor
  · intro h k hk
    exact h _ (Region.add_mem hk)
  · intro h x hx
    obtain ⟨k, hk, rfl⟩ := Region.mem_iff_exists.mp hx
    exact h k hk

/-- Two regions have no address in common. -/
def Region.Disjoint (r s : Region w) : Prop := ∀ x, x ∈ r → x ∉ s

theorem Region.Disjoint.symm {r s : Region w} (h : r.Disjoint s) : s.Disjoint r :=
  fun x hs hr => h x hr hs

theorem Region.disjoint_iff {r s : Region w} :
    r.Disjoint s ↔ ∀ k < r.size, r.base + BitVec.ofNat w k ∉ s :=
  Region.forall_mem (P := fun x => x ∉ s)

instance (r s : Region w) : Decidable (r.Disjoint s) :=
  decidable_of_iff _ Region.disjoint_iff.symm

/-- A region of no addresses. -/
theorem Region.disjoint_empty (r : Region w) (a : BitVec w) : r.Disjoint ⟨a, 0⟩ :=
  fun _ _ hx => Nat.not_lt_zero _ hx

/-- A region that starts where another does and is no longer lies in it. -/
theorem Region.mem_of_le {a x : BitVec w} {n k : Nat} (h : x ∈ (⟨a, n⟩ : Region w)) (hnk : n ≤ k) :
    x ∈ (⟨a, k⟩ : Region w) :=
  Nat.lt_of_lt_of_le h hnk

/-- The last addresses of a region. -/
theorem Region.mem_of_add {a x : BitVec w} {n k : Nat}
    (h : x ∈ (⟨a + BitVec.ofNat w n, k⟩ : Region w)) : x ∈ (⟨a, n + k⟩ : Region w) := by
  obtain ⟨j, hj, rfl⟩ := Region.mem_iff_exists.mp h
  rw [add_ofNat_add]
  exact Region.add_mem (r := ⟨a, n + k⟩) (Nat.add_lt_add_left hj n)

/-- A part of a region. -/
theorem Region.mem_of_part {a x : BitVec w} {i k n : Nat}
    (h : x ∈ (⟨a + BitVec.ofNat w i, k⟩ : Region w)) (hle : i + k ≤ n) :
    x ∈ (⟨a, n⟩ : Region w) :=
  Region.mem_of_le (Region.mem_of_add h) hle

/-- Two parts of a region, one behind the other. -/
theorem Region.disjoint_parts (a : BitVec w) {i j k l : Nat} (hij : i + k ≤ j)
    (hj : j + l ≤ 2 ^ w) :
    Region.Disjoint ⟨a + BitVec.ofNat w i, k⟩ ⟨a + BitVec.ofNat w j, l⟩ := by
  intro x hx hx'
  obtain ⟨p, hp, rfl⟩ := Region.mem_iff_exists.mp hx
  obtain ⟨q, hq, heq⟩ := Region.mem_iff_exists.mp hx'
  dsimp only at hp hq heq
  rw [add_ofNat_add, add_ofNat_add] at heq
  have hoff : (a + BitVec.ofNat w (i + p) - a).toNat = (a + BitVec.ofNat w (j + q) - a).toNat := by
    rw [heq]
  rw [offset_add a (by omega), offset_add a (by omega)] at hoff
  omega

/-- The first addresses of a region and a part behind them. -/
theorem Region.disjoint_rest (a : BitVec w) {j k l : Nat} (hkj : k ≤ j) (hj : j + l ≤ 2 ^ w) :
    Region.Disjoint ⟨a, k⟩ ⟨a + BitVec.ofNat w j, l⟩ := by
  have h := Region.disjoint_parts a (i := 0) (k := k) (by omega) hj
  rwa [BitVec.add_zero] at h

theorem Region.Disjoint.parts {a b : BitVec w} {n n' i j k l : Nat}
    (h : Region.Disjoint (w := w) ⟨a, n⟩ ⟨b, n'⟩) (hi : i + k ≤ n) (hj : j + l ≤ n') :
    Region.Disjoint (w := w) ⟨a + BitVec.ofNat w i, k⟩ ⟨b + BitVec.ofNat w j, l⟩ :=
  fun x hx hx' => h x (Region.mem_of_part hx hi) (Region.mem_of_part hx' hj)

/-- A region that does not wrap is an interval. -/
theorem Region.mem_iff_toNat {a x : BitVec w} {n : Nat} (h : a.toNat + n ≤ 2 ^ w) :
    x ∈ (⟨a, n⟩ : Region w) ↔ a.toNat ≤ x.toNat ∧ x.toNat < a.toNat + n := by
  have hx := x.isLt
  rw [Region.mem_iff]
  dsimp only
  by_cases hax : a.toNat ≤ x.toNat
  · rw [BitVec.toNat_sub_of_le (by rwa [BitVec.le_def])]
    omega
  · rw [BitVec.toNat_sub, Nat.mod_eq_of_lt (by omega)]
    omega

/-- A region that ends where another begins or below, and neither wraps. -/
theorem Region.disjoint_of_toNat {a b : BitVec w} {n k : Nat} (ha : a.toNat + n ≤ b.toNat)
    (hb : b.toNat + k ≤ 2 ^ w) : Region.Disjoint ⟨a, n⟩ ⟨b, k⟩ := by
  intro x hxa hxb
  rw [Region.mem_iff_toNat (by omega)] at hxa
  rw [Region.mem_iff_toNat hb] at hxb
  omega

/-- A region of one address. -/
theorem Region.mem_one {a x : BitVec w} : x ∈ (⟨a, 1⟩ : Region w) ↔ x = a := by
  constructor
  · intro h
    rw [Region.mem_iff, Nat.lt_one_iff] at h
    have h0 : x - a = 0 := BitVec.eq_of_toNat_eq (by simpa using h)
    exact sub_eq_zero.mp h0
  · rintro rfl
    simp [Region.mem_iff]

/-! ## Stores -/

/-- `bs` written from `a` upwards. -/
def store (m : BitVec w → β) (a : BitVec w) : List β → BitVec w → β
  | [] => m
  | b :: bs => store (Function.update m a b) (a + 1) bs

/-- The cells from `a` upwards hold `bs`. -/
def Reads (m : BitVec w → β) (a : BitVec w) (bs : List β) : Prop :=
  ∀ i (hi : i < bs.length), m (a + BitVec.ofNat w i) = bs[i]

instance [DecidableEq β] (m : BitVec w → β) (a : BitVec w) (bs : List β) :
    Decidable (Reads m a bs) :=
  inferInstanceAs (Decidable (∀ i (hi : i < bs.length), m (a + BitVec.ofNat w i) = bs[i]))

/-- A step of one address up takes one off the distance, except from the first address. -/
theorem offset_succ {a x : BitVec w} (h : x ≠ a) :
    (x - a).toNat = (x - (a + 1)).toNat + 1 := by
  have hne : x - a ≠ 0 := sub_ne_zero.mpr h
  have hpos : 0 < (x - a).toNat :=
    Nat.pos_of_ne_zero fun h0 => hne (BitVec.eq_of_toNat_eq (by simpa using h0))
  have hw : 0 < w := Nat.pos_of_ne_zero fun h0 => by subst h0; have := (x - a).isLt; omega
  have h1 : (1 : BitVec w).toNat = 1 := BitVec.toNat_one hw
  have hsub : (x - a - 1).toNat = (x - a).toNat - 1 := by
    rw [BitVec.toNat_sub_of_le (by rw [BitVec.le_def]; omega), h1]
  rw [show x - (a + 1) = x - a - 1 by ring, hsub]
  omega

theorem offset_self_succ (a : BitVec w) : (a - (a + 1)).toNat = 2 ^ w - 1 := by
  have h : a - (a + 1) = -1#w := by
    show a - (a + 1) = -1
    ring
  rw [h, BitVec.neg_one_eq_allOnes, BitVec.toNat_allOnes]

/-- What a cell holds after a store that does not lap itself. -/
theorem store_apply (m : BitVec w → β) (a x : BitVec w) {bs : List β} (h : bs.length ≤ 2 ^ w) :
    store m a bs x = if hx : (x - a).toNat < bs.length then bs[(x - a).toNat] else m x := by
  induction bs generalizing m a with
  | nil => simp [store]
  | cons b bs ih =>
    simp only [List.length_cons] at h
    rw [store, ih _ _ (by omega)]
    by_cases hxa : x = a
    · subst hxa
      have h1 : ¬ (x - (x + 1)).toNat < bs.length := by rw [offset_self_succ]; omega
      rw [dif_neg h1]
      simp
    · have hs := offset_succ hxa
      by_cases hx : (x - (a + 1)).toNat < bs.length
      · rw [dif_pos hx, dif_pos (by simp only [List.length_cons]; omega)]
        simp only [hs, List.getElem_cons_succ]
      · rw [dif_neg hx, dif_neg (by simp only [List.length_cons]; omega), Function.update_of_ne hxa]

theorem store_of_notMem {m : BitVec w → β} {a x : BitVec w} {bs : List β} (h : bs.length ≤ 2 ^ w)
    (hx : x ∉ (⟨a, bs.length⟩ : Region w)) : store m a bs x = m x := by
  rw [store_apply m a x h]
  exact dif_neg hx

theorem store_of_mem {m m' : BitVec w → β} {a x : BitVec w} {bs : List β} (h : bs.length ≤ 2 ^ w)
    (hx : x ∈ (⟨a, bs.length⟩ : Region w)) : store m a bs x = store m' a bs x := by
  rw [store_apply m a x h, store_apply m' a x h, dif_pos (Region.mem_iff.mp hx),
    dif_pos (Region.mem_iff.mp hx)]

/-- What was stored reads back. -/
theorem store_reads (m : BitVec w → β) (a : BitVec w) {bs : List β} (h : bs.length ≤ 2 ^ w) :
    Reads (store m a bs) a bs := by
  intro i hi
  have ho := offset_add a (k := i) (by omega)
  rw [store_apply m a _ h, dif_pos (by omega)]
  simp only [ho]

/-- A store of what is there already. -/
theorem store_of_reads {m : BitVec w → β} {a : BitVec w} {bs : List β} (h : bs.length ≤ 2 ^ w)
    (hr : Reads m a bs) : store m a bs = m := by
  funext x
  rw [store_apply m a x h]
  split
  · rename_i hx
    rw [← hr _ hx, add_offset]
  · rfl

/-- Two memories that agree on a region read alike there. -/
theorem Reads.congr {m m' : BitVec w → β} {a : BitVec w} {bs : List β} (hr : Reads m a bs)
    (h : ∀ x ∈ (⟨a, bs.length⟩ : Region w), m' x = m x) : Reads m' a bs := by
  intro i hi
  rw [h _ (Region.add_mem (r := ⟨a, bs.length⟩) hi)]
  exact hr i hi

/-- A store outside a region keeps what the region reads. -/
theorem Reads.store {m : BitVec w → β} {a b : BitVec w} {bs cs : List β} (hr : Reads m a bs)
    (h : cs.length ≤ 2 ^ w)
    (hd : Region.Disjoint ⟨a, bs.length⟩ ⟨b, cs.length⟩) : Reads (Memory.store m b cs) a bs :=
  hr.congr fun x hx => store_of_notMem h (hd x hx)

/-- A list is read where its two parts are read, one behind the other. -/
theorem reads_append {m : BitVec w → β} {a : BitVec w} {bs cs : List β} :
    Reads m a (bs ++ cs) ↔ Reads m a bs ∧ Reads m (a + BitVec.ofNat w bs.length) cs := by
  constructor
  · intro h
    refine ⟨fun i hi => ?_, fun i hi => ?_⟩
    · rw [h i (by rw [List.length_append]; omega), List.getElem_append_left hi]
    · rw [add_ofNat_add, h (bs.length + i) (by rw [List.length_append]; omega)]
      simp
  · rintro ⟨hb, hc⟩ i hi
    rw [List.length_append] at hi
    by_cases hlt : i < bs.length
    · rw [hb i hlt, List.getElem_append_left hlt]
    · obtain ⟨k, rfl⟩ := Nat.exists_eq_add_of_le (Nat.not_lt.mp hlt)
      rw [← add_ofNat_add, hc k (by omega)]
      simp

/-! ## Loads -/

/-- The `n` cells from `a` upwards. -/
def load (m : BitVec w → β) (a : BitVec w) (n : Nat) : List β :=
  (List.range n).map fun i => m (a + BitVec.ofNat w i)

@[simp] theorem length_load (m : BitVec w → β) (a : BitVec w) (n : Nat) :
    (load m a n).length = n := by
  rw [load, List.length_map, List.length_range]

@[simp] theorem getElem_load (m : BitVec w → β) (a : BitVec w) {n i : Nat}
    (h : i < (load m a n).length) : (load m a n)[i] = m (a + BitVec.ofNat w i) := by
  simp [load]

/-- What is read is what is there. -/
theorem reads_load (m : BitVec w → β) (a : BitVec w) (n : Nat) : Reads m a (load m a n) :=
  fun _ hi => (getElem_load m a hi).symm

theorem load_congr {m m' : BitVec w → β} {a : BitVec w} {n : Nat}
    (h : ∀ x ∈ (⟨a, n⟩ : Region w), m' x = m x) : load m' a n = load m a n := by
  refine List.map_congr_left fun i hi => h _ ?_
  exact Region.add_mem (r := ⟨a, n⟩) (List.mem_range.mp hi)

/-! ## Batches of stores -/

/-- A store: its first address and its cells. -/
structure Write (w : Nat) (β : Type) where
  addr : BitVec w
  data : List β

def Write.region (e : Write w β) : Region w := ⟨e.addr, e.data.length⟩

/-- The stores of a batch, in order. -/
def writeAll (m : BitVec w → β) (ws : List (Write w β)) : BitVec w → β :=
  ws.foldl (fun m e => store m e.addr e.data) m

@[simp] theorem writeAll_nil (m : BitVec w → β) : writeAll m [] = m := rfl

theorem writeAll_cons (m : BitVec w → β) (e : Write w β) (ws : List (Write w β)) :
    writeAll m (e :: ws) = writeAll (store m e.addr e.data) ws := rfl

/-- The frame of a batch: a cell that none of its stores covers keeps its value. -/
theorem writeAll_frame {m : BitVec w → β} {ws : List (Write w β)} {x : BitVec w}
    (hl : ∀ e ∈ ws, e.data.length ≤ 2 ^ w) (hx : ∀ e ∈ ws, x ∉ e.region) :
    writeAll m ws x = m x := by
  induction ws generalizing m with
  | nil => rfl
  | cons e ws ih =>
    rw [writeAll_cons, ih (fun e he => hl e (List.mem_cons_of_mem _ he))
      (fun e he => hx e (List.mem_cons_of_mem _ he))]
    exact store_of_notMem (hl e (List.mem_cons_self ..)) (hx e (List.mem_cons_self ..))

/-- A cell that a batch covers gets a value that the memory before the batch does not influence. -/
theorem writeAll_agree {m m' : BitVec w → β} {ws : List (Write w β)} {x : BitVec w}
    (hl : ∀ e ∈ ws, e.data.length ≤ 2 ^ w) (hx : m x = m' x ∨ ∃ e ∈ ws, x ∈ e.region) :
    writeAll m ws x = writeAll m' ws x := by
  induction ws generalizing m m' with
  | nil => simpa using hx
  | cons e ws ih =>
    rw [writeAll_cons, writeAll_cons]
    refine ih (fun e he => hl e (List.mem_cons_of_mem _ he)) ?_
    have he := hl e (List.mem_cons_self ..)
    by_cases hxe : x ∈ e.region
    · exact .inl (store_of_mem he hxe)
    · rcases hx with hx | ⟨d, hd, hxd⟩
      · exact .inl (by rw [store_of_notMem he hxe, store_of_notMem he hxe, hx])
      · rcases List.mem_cons.mp hd with rfl | hd
        · exact absurd hxd hxe
        · exact .inr ⟨d, hd, hxd⟩

/-- A cell that is only covered by stores of the value `b` holds `b` after the batch, if some store
covers it or it held `b` before. -/
theorem writeAll_const {m : BitVec w → β} {ws : List (Write w β)} {x : BitVec w} {b : β}
    (hl : ∀ e ∈ ws, e.data.length ≤ 2 ^ w)
    (hb : ∀ e ∈ ws, x ∈ e.region → ∀ d ∈ e.data, d = b)
    (hx : m x = b ∨ ∃ e ∈ ws, x ∈ e.region) : writeAll m ws x = b := by
  induction ws generalizing m with
  | nil => simpa using hx
  | cons e ws ih =>
    rw [writeAll_cons]
    refine ih (fun e he => hl e (List.mem_cons_of_mem _ he))
      (fun e he => hb e (List.mem_cons_of_mem _ he)) ?_
    rw [store_apply m e.addr x (hl e (List.mem_cons_self ..))]
    by_cases hxe : (x - e.addr).toNat < e.data.length
    · rw [dif_pos hxe]
      exact .inl (hb e (List.mem_cons_self ..) hxe _ (List.getElem_mem _))
    · rw [dif_neg hxe]
      rcases hx with hx | ⟨d, hd, hxd⟩
      · exact .inl hx
      · rcases List.mem_cons.mp hd with rfl | hd
        · exact absurd (Region.mem_iff.mp hxd) hxe
        · exact .inr ⟨d, hd, hxd⟩

/-- In a batch of pairwise disjoint stores, every store reads back after the whole batch. -/
theorem writeAll_reads {m : BitVec w → β} {ws : List (Write w β)}
    (hl : ∀ e ∈ ws, e.data.length ≤ 2 ^ w)
    (hd : ws.Pairwise fun e d => e.region.Disjoint d.region) {e : Write w β} (he : e ∈ ws) :
    Reads (writeAll m ws) e.addr e.data := by
  induction ws generalizing m with
  | nil => cases he
  | cons d ws ih =>
    rw [writeAll_cons]
    have hl' : ∀ e ∈ ws, e.data.length ≤ 2 ^ w := fun e he => hl e (List.mem_cons_of_mem _ he)
    rw [List.pairwise_cons] at hd
    rcases List.mem_cons.mp he with rfl | he
    · refine (store_reads m e.addr (hl e (List.mem_cons_self ..))).congr fun x hx => ?_
      exact writeAll_frame hl' fun d hd' => hd.1 d hd' x hx
    · exact ih hl' hd.2 he

/-! ## Words -/

section Words

/-- The cells of a 32-bit word, the low one first. -/
def wordBytes (v : BitVec 32) : List (BitVec 8) :=
  [v.extractLsb' 0 8, v.extractLsb' 8 8, v.extractLsb' 16 8, v.extractLsb' 24 8]

/-- The 32-bit word whose low cell is at `a`. -/
def readWord (m : BitVec w → BitVec 8) (a : BitVec w) : BitVec 32 :=
  m (a + 3) ++ m (a + 2) ++ m (a + 1) ++ m a

@[simp] theorem length_wordBytes (v : BitVec 32) : (wordBytes v).length = 4 := rfl

/-- Four cells that hold a word's bytes hold the word. -/
theorem Reads.readWord {m : BitVec w → BitVec 8} {a : BitVec w} {v : BitVec 32}
    (h : Reads m a (wordBytes v)) : readWord m a = v := by
  have h0 : m a = v.extractLsb' 0 8 := by
    have := h 0 (by simp)
    rwa [BitVec.add_zero] at this
  have h1 : m (a + 1) = v.extractLsb' 8 8 := h 1 (by simp)
  have h2 : m (a + 2) = v.extractLsb' 16 8 := h 2 (by simp)
  have h3 : m (a + 3) = v.extractLsb' 24 8 := h 3 (by simp)
  unfold Memory.readWord
  rw [h0, h1, h2, h3]
  apply BitVec.eq_of_getLsbD_eq
  intro i hi
  simp only [BitVec.getLsbD_append, BitVec.getLsbD_extractLsb']
  grind

theorem readWord_congr {m m' : BitVec w → BitVec 8} {a : BitVec w}
    (h : ∀ x ∈ (⟨a, 4⟩ : Region w), m' x = m x) : readWord m' a = readWord m a := by
  have hk : ∀ k < 4, m' (a + BitVec.ofNat w k) = m (a + BitVec.ofNat w k) := fun k hk =>
    h _ (Region.add_mem (r := ⟨a, 4⟩) hk)
  have h0 := hk 0 (by omega)
  rw [BitVec.add_zero] at h0
  unfold readWord
  rw [h0]
  congr 1
  congr 1
  · congr 1
    · exact hk 3 (by omega)
    · exact hk 2 (by omega)
  · exact hk 1 (by omega)

/-- A word that was stored is read. -/
theorem readWord_store (m : BitVec 32 → BitVec 8) (a : BitVec 32) (v : BitVec 32) :
    readWord (store m a (wordBytes v)) a = v :=
  (store_reads m a (by simp)).readWord

/-- A store elsewhere keeps a word. -/
theorem readWord_store_of_disjoint (m : BitVec 32 → BitVec 8) {a b : BitVec 32} (v : BitVec 32)
    (h : Region.Disjoint (w := 32) ⟨b, 4⟩ ⟨a, 4⟩) :
    readWord (store m a (wordBytes v)) b = readWord m b :=
  readWord_congr fun x hx => store_of_notMem (by simp) (h x hx)

/-- The cells of a word that was read. -/
theorem wordBytes_readWord (m : BitVec w → BitVec 8) (a : BitVec w) :
    wordBytes (readWord m a) = [m a, m (a + 1), m (a + 2), m (a + 3)] := by
  unfold wordBytes readWord
  simp only [List.cons.injEq, and_true]
  refine ⟨?_, ?_, ?_, ?_⟩ <;>
    · apply BitVec.eq_of_getLsbD_eq
      intro i hi
      simp only [BitVec.getLsbD_append, BitVec.getLsbD_extractLsb']
      grind

/-- Storing a word where it stands changes nothing. -/
theorem store_readWord (m : BitVec 32 → BitVec 8) (a : BitVec 32) :
    store m a (wordBytes (readWord m a)) = m := by
  refine store_of_reads (by simp) fun i hi => ?_
  rw [length_wordBytes] at hi
  simp only [wordBytes_readWord]
  match i, hi with
  | 0, _ => simp
  | 1, _ => simp
  | 2, _ => simp
  | 3, _ => simp

end Words

end Memory
