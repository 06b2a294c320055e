import BossranMenu.MinHook.Buffer

/-!
# The blocks of slots as lists (`buffer.c`)

A `Block` is the lists of its free and of its used slots. `Pool s bs` says that the memory of `s`
holds the blocks `bs`.

* `Block.Holds.pop`, `Block.Holds.push`: a slot is taken, or given back.
* `buildSlots_spec`, `newBlock_spec`: the slots of a new block.
* `Pool.update`, `Pool.unlinkBlock`, `Pool.cons`: a block changes, goes or comes.
-/

namespace Bossran

open Memory LinkedList

/-! ## Slots -/

/-- The slot at the place `i` of a block; the place 0 is behind the header. -/
def slotAt (base : DWORD) (i : Nat) : DWORD := base + BitVec.ofNat 32 (32 * (i + 1))

def slots (base : DWORD) : List DWORD := (List.range 127).map (slotAt base)

/-- The base of a page. -/
def Aligned (base : DWORD) : Prop := base.toNat % 4096 = 0

instance (base : DWORD) : Decidable (Aligned base) := inferInstanceAs (Decidable (_ = _))

section Slots

variable {base base' p q x : DWORD} {i j : Nat}

theorem mem_slots : p ∈ slots base ↔ ∃ i < 127, slotAt base i = p := by
  simp [slots]

theorem slotAt_disjoint (hi : i < 127) (hj : j < 127) (h : i ≠ j) :
    Region.Disjoint (w := 32) ⟨slotAt base i, 32⟩ ⟨slotAt base j, 32⟩ := by
  rcases Nat.lt_or_gt_of_ne h with h | h
  · exact Region.disjoint_parts base (by omega) (by omega)
  · exact (Region.disjoint_parts base (by omega) (by omega)).symm

theorem slotAt_inj (hi : i < 127) (hj : j < 127) (h : slotAt base i = slotAt base j) : i = j := by
  have hoff : (slotAt base i - base).toNat = (slotAt base j - base).toNat := by rw [h]
  rw [slotAt, slotAt, offset_add base (by omega), offset_add base (by omega)] at hoff
  omega

theorem slots_nodup : (slots base).Nodup := by
  refine List.Nodup.map_on (fun i hi j hj h => ?_) List.nodup_range
  exact slotAt_inj (List.mem_range.mp hi) (List.mem_range.mp hj) h

theorem slots_disjoint (hp : p ∈ slots base) (hq : q ∈ slots base) (h : p ≠ q) :
    Region.Disjoint (w := 32) ⟨p, 32⟩ ⟨q, 32⟩ := by
  obtain ⟨i, hi, rfl⟩ := mem_slots.mp hp
  obtain ⟨j, hj, rfl⟩ := mem_slots.mp hq
  exact slotAt_disjoint hi hj fun heq => h (heq ▸ rfl)

theorem header_disjoint (hp : p ∈ slots base) :
    Region.Disjoint (w := 32) ⟨base, 12⟩ ⟨p, 32⟩ := by
  obtain ⟨i, hi, rfl⟩ := mem_slots.mp hp
  exact Region.disjoint_rest base (by omega) (by omega)

theorem slot_in_page (hp : p ∈ slots base) (hx : x ∈ (⟨p, 32⟩ : Region 32)) :
    x ∈ (⟨base, 4096⟩ : Region 32) := by
  obtain ⟨i, hi, rfl⟩ := mem_slots.mp hp
  exact Region.mem_of_part hx (by omega)

theorem Aligned.le (h : Aligned base) : base.toNat + 4096 ≤ 2 ^ 32 := by
  have := base.isLt
  rw [Aligned] at h
  omega

theorem Aligned.mem_iff (h : Aligned base) :
    x ∈ (⟨base, 4096⟩ : Region 32) ↔ x.toNat / 4096 = base.toNat / 4096 := by
  have hle := h.le
  rw [Region.mem_iff_toNat hle]
  rw [Aligned] at h
  omega

theorem Aligned.mem_page (h : Aligned base) :
    x ∈ (⟨base, 4096⟩ : Region 32) ↔ pageOf x = pageOf base := by
  rw [h.mem_iff, ← toNat_pageOf, ← toNat_pageOf, BitVec.toNat_inj]

/-- Two pages that are not the same lie apart. -/
theorem Aligned.disjoint (h : Aligned base) (h' : Aligned base') (hne : base ≠ base') :
    Region.Disjoint (w := 32) ⟨base, 4096⟩ ⟨base', 4096⟩ := by
  intro x hx hx'
  rw [h.mem_iff] at hx
  rw [h'.mem_iff, hx] at hx'
  rw [Aligned] at h h'
  exact hne (BitVec.eq_of_toNat_eq (by omega))

theorem Aligned.slot_toNat (h : Aligned base) (hi : i < 127) :
    (slotAt base i).toNat = base.toNat + 32 * (i + 1) := by
  have hle := h.le
  rw [slotAt, BitVec.toNat_add, BitVec.toNat_ofNat, Nat.mod_eq_of_lt (by omega : _ < 2 ^ 32),
    Nat.mod_eq_of_lt (by omega)]

theorem Aligned.slot_ne_zero (h : Aligned base) (hp : p ∈ slots base) : p ≠ 0 := by
  obtain ⟨i, hi, rfl⟩ := mem_slots.mp hp
  have hn := h.slot_toNat hi
  intro h0
  rw [h0, show (0 : DWORD).toNat = 0 from rfl] at hn
  omega

/-- A slot is found in its block. -/
theorem Aligned.targetBlock_slot (h : Aligned base) (hp : p ∈ slots base) :
    targetBlock p = base := by
  obtain ⟨i, hi, rfl⟩ := mem_slots.mp hp
  have hn := h.slot_toNat hi
  have hle := h.le
  apply BitVec.eq_of_toNat_eq
  rw [targetBlock, BitVec.toNat_mul, BitVec.toNat_udiv, hn,
    show (0x1000 : DWORD).toNat = 4096 from rfl]
  rw [Aligned] at h
  omega

end Slots

/-! ## The fields of a header -/

section Fields

variable {m : DWORD → BYTE} {p q v x : DWORD}

theorem setFree_frame (hx : x ∉ (⟨p, 12⟩ : Region 32)) : setFree m p v x = m x :=
  store_of_notMem (by simp) fun h => hx (Region.mem_of_part h (by simp))

theorem setCount_frame (hx : x ∉ (⟨p, 12⟩ : Region 32)) : setCount m p v x = m x :=
  store_of_notMem (by simp) fun h => hx (Region.mem_of_part h (by simp))

theorem setNext_frame (hx : x ∉ (⟨p, 4⟩ : Region 32)) : setNext m p v x = m x :=
  store_of_notMem (by simp) hx

@[simp] theorem pFree_setFree : pFree (setFree m p v) p = v := readWord_store m _ v

@[simp] theorem usedCount_setCount : usedCount (setCount m p v) p = v := readWord_store m _ v

@[simp] theorem pNext_setNext : pNext (setNext m p v) p = v := readWord_store m p v

@[simp] theorem usedCount_setFree : usedCount (setFree m p v) p = usedCount m p :=
  readWord_store_of_disjoint m v (Region.disjoint_parts p (by decide) (by decide)).symm

@[simp] theorem pFree_setCount : pFree (setCount m p v) p = pFree m p :=
  readWord_store_of_disjoint m v (Region.disjoint_parts p (by decide) (by decide))

@[simp] theorem pNext_setFree : pNext (setFree m p v) p = pNext m p :=
  readWord_store_of_disjoint m v (Region.disjoint_rest p (by decide) (by decide))

@[simp] theorem pNext_setCount : pNext (setCount m p v) p = pNext m p :=
  readWord_store_of_disjoint m v (Region.disjoint_rest p (by decide) (by decide))

@[simp] theorem pFree_setNext : pFree (setNext m p v) p = pFree m p :=
  readWord_store_of_disjoint m v (Region.disjoint_rest p (by decide) (by decide)).symm

@[simp] theorem usedCount_setNext : usedCount (setNext m p v) p = usedCount m p :=
  readWord_store_of_disjoint m v (Region.disjoint_rest p (by decide) (by decide)).symm

variable {m' : DWORD → BYTE}

theorem pNext_congr (h : ∀ x ∈ (⟨p, 4⟩ : Region 32), m' x = m x) : pNext m' p = pNext m p :=
  readWord_congr h

theorem pFree_congr (h : ∀ x ∈ (⟨p, 12⟩ : Region 32), m' x = m x) : pFree m' p = pFree m p :=
  readWord_congr fun x hx => h x (Region.mem_of_part hx (by decide))

theorem usedCount_congr (h : ∀ x ∈ (⟨p, 12⟩ : Region 32), m' x = m x) :
    usedCount m' p = usedCount m p :=
  readWord_congr fun x hx => h x (Region.mem_of_part hx (by decide))

end Fields

/-! ## One block -/

/-- A block: its base, and its free and its used slots, the next one first. -/
structure Block where
  base : DWORD
  free : List DWORD
  used : List DWORD
  deriving DecidableEq

/-- The memory holds the block. -/
structure Block.Holds (m : DWORD → BYTE) (b : Block) : Prop where
  aligned : Aligned b.base
  chain : Chain (pNext m) 0 (pFree m b.base) b.free
  count : usedCount m b.base = BitVec.ofNat 32 b.used.length
  perm : (b.free ++ b.used).Perm (slots b.base)

namespace Block.Holds

variable {m m' : DWORD → BYTE} {b : Block} {base p : DWORD} {free used : List DWORD}

theorem free_mem (h : b.Holds m) (hp : p ∈ b.free) : p ∈ slots b.base :=
  h.perm.mem_iff.mp (List.mem_append_left _ hp)

theorem used_mem (h : b.Holds m) (hp : p ∈ b.used) : p ∈ slots b.base :=
  h.perm.mem_iff.mp (List.mem_append_right _ hp)

theorem nodup (h : b.Holds m) : (b.free ++ b.used).Nodup := h.perm.nodup_iff.mpr slots_nodup

theorem length_le (h : b.Holds m) : b.used.length ≤ 127 := by
  have hlen := h.perm.length_eq
  rw [List.length_append, slots, List.length_map, List.length_range] at hlen
  omega

/-- A block is held by its header and its free slots. -/
theorem congr (h : b.Holds m) (hheader : ∀ x ∈ (⟨b.base, 12⟩ : Region 32), m' x = m x)
    (hfree : ∀ p ∈ b.free, ∀ x ∈ (⟨p, 4⟩ : Region 32), m' x = m x) : b.Holds m' where
  aligned := h.aligned
  chain := by
    rw [pFree_congr hheader]
    exact h.chain.congr fun p hp => pNext_congr (hfree p hp)
  count := (usedCount_congr hheader).trans h.count
  perm := h.perm

/-- The header of a block lies apart from its slots. -/
theorem free_frame (h : b.Holds m) (hp : p ∈ b.free)
    (hm : ∀ x, x ∉ (⟨b.base, 12⟩ : Region 32) → m' x = m x) :
    ∀ x ∈ (⟨p, 4⟩ : Region 32), m' x = m x := fun x hx =>
  hm x fun hx' => header_disjoint (h.free_mem hp) x hx' (Region.mem_of_le hx (by decide))

theorem setNext (h : b.Holds m) (v : DWORD) : b.Holds (setNext m b.base v) where
  aligned := h.aligned
  chain := by
    rw [pFree_setNext]
    refine h.chain.congr fun p hp => pNext_congr (h.free_frame hp fun x hx => ?_)
    exact setNext_frame fun hx' => hx (Region.mem_of_le hx' (by decide))
  count := usedCount_setNext.trans h.count
  perm := h.perm

/-- The first free slot is taken. -/
theorem pop (h : Holds m ⟨base, p :: free, used⟩) :
    Holds (setCount (setFree m base (pNext m p)) base (usedCount m base + 1))
      ⟨base, free, p :: used⟩ where
  aligned := h.aligned
  chain := by
    rw [pFree_setCount, pFree_setFree]
    refine h.chain.pop.congr fun q hq => pNext_congr ?_
    exact h.free_frame (List.mem_cons_of_mem _ hq) fun x hx =>
      (setCount_frame hx).trans (setFree_frame hx)
  count := by
    have hcount : usedCount m base = BitVec.ofNat 32 used.length := h.count
    rw [usedCount_setCount, hcount, List.length_cons, BitVec.ofNat_add]
    rfl
  perm := List.perm_middle.trans h.perm

/-- A used slot is given back. -/
theorem push (h : Holds m ⟨base, free, used⟩) (hp : p ∈ used) :
    Holds (setCount (setFree (Bossran.setNext m p (pFree m base)) base p) base
      (usedCount m base - 1)) ⟨base, p :: free, used.erase p⟩ where
  aligned := h.aligned
  chain := by
    rw [pFree_setCount, pFree_setFree]
    have hslot := h.used_mem hp
    have hheader : ∀ x ∈ (⟨p, 4⟩ : Region 32), x ∉ (⟨base, 12⟩ : Region 32) := fun x hx hx' =>
      header_disjoint hslot x hx' (Region.mem_of_le hx (by decide))
    refine h.chain.push (h.aligned.slot_ne_zero hslot) ?_ fun q hq => ?_
    · rw [pNext_congr fun x hx =>
        (setCount_frame (hheader x hx)).trans (setFree_frame (hheader x hx))]
      exact pNext_setNext
    · have hqslot := h.free_mem hq
      have hne : q ≠ p := by
        rintro rfl
        exact (List.nodup_append.mp h.nodup).2.2 q hq q hp rfl
      have happart := slots_disjoint hqslot hslot hne
      refine pNext_congr fun x hx => ?_
      have hx' : x ∉ (⟨base, 12⟩ : Region 32) := fun hx' =>
        header_disjoint hqslot x hx' (Region.mem_of_le hx (by decide))
      rw [setCount_frame hx', setFree_frame hx']
      exact setNext_frame fun hxp =>
        happart x (Region.mem_of_le hx (by decide)) (Region.mem_of_le hxp (by decide))
  count := by
    have hcount : usedCount m base = BitVec.ofNat 32 used.length := h.count
    have hpos := List.length_pos_of_mem hp
    rw [usedCount_setCount, hcount, List.length_erase_of_mem hp,
      ← BitVec.ofNat_sub_ofNat_of_le _ _ (by decide) hpos]
    rfl
  perm := by
    have hall : (p :: (free ++ used.erase p)).Perm (free ++ used) :=
      List.perm_middle.symm.trans ((List.perm_cons_erase hp).symm.append_left free)
    exact hall.trans h.perm

end Block.Holds

/-! ## A new block -/

section NewBlock

variable {base : DWORD}

/-- The `n` slots from the place `j` on. -/
def slotRun (base : DWORD) (j n : Nat) : List DWORD := (List.range' j n).map (slotAt base)

theorem slotRun_all : slotRun base 0 127 = slots base := by
  rw [slotRun, slots, List.range_eq_range']

/-- A round of the loop that links the slots: the slot is the first free one. -/
theorem link_slot {m : DWORD → BYTE} {j : Nat} (hj : j < 127) (ha : Aligned base)
    (hc : Chain (pNext m) 0 (pFree m base) (slotRun base 0 j).reverse) :
    Chain (pNext (setFree (setNext m (slotAt base j) (pFree m base)) base (slotAt base j))) 0
      (pFree (setFree (setNext m (slotAt base j) (pFree m base)) base (slotAt base j)) base)
      (slotRun base 0 (j + 1)).reverse := by
  have hslot : slotAt base j ∈ slots base := mem_slots.mpr ⟨j, hj, rfl⟩
  have hrun : (slotRun base 0 (j + 1)).reverse = slotAt base j :: (slotRun base 0 j).reverse := by
    rw [slotRun, List.range'_concat, List.map_append, List.reverse_append]
    simp [slotRun]
  have hheader : ∀ {p x : DWORD}, p ∈ slots base → x ∈ (⟨p, 4⟩ : Region 32) →
      x ∉ (⟨base, 12⟩ : Region 32) := fun hp hx hx' =>
    header_disjoint hp _ hx' (Region.mem_of_le hx (by decide))
  rw [hrun, pFree_setFree]
  refine hc.push (ha.slot_ne_zero hslot) ?_ fun q hq => ?_
  · rw [pNext_congr fun x hx => setFree_frame (hheader hslot hx)]
    exact pNext_setNext
  · simp only [slotRun, List.mem_reverse, List.mem_map, List.mem_range'_1] at hq
    obtain ⟨i, hi, rfl⟩ := hq
    have happart : Region.Disjoint (w := 32) ⟨slotAt base i, 32⟩ ⟨slotAt base j, 32⟩ :=
      slotAt_disjoint (by omega) hj (by omega)
    refine pNext_congr fun x hx => ?_
    rw [setFree_frame (hheader (mem_slots.mpr ⟨i, by omega, rfl⟩) hx)]
    exact setNext_frame fun hx' =>
      happart x (Region.mem_of_le hx (by decide)) (Region.mem_of_le hx' (by decide))

theorem link_slot_frame (base : DWORD) {m : DWORD → BYTE} {j : Nat} (hj : j < 127) :
    usedCount (setFree (setNext m (slotAt base j) (pFree m base)) base (slotAt base j)) base =
      usedCount m base ∧ ∀ x, x ∉ (⟨base, 4096⟩ : Region 32) →
      setFree (setNext m (slotAt base j) (pFree m base)) base (slotAt base j) x = m x := by
  have hslot : slotAt base j ∈ slots base := mem_slots.mpr ⟨j, hj, rfl⟩
  constructor
  · rw [usedCount_setFree]
    refine usedCount_congr fun x hx => setNext_frame fun hx' => ?_
    exact header_disjoint hslot x hx (Region.mem_of_le hx' (by decide))
  · intro x hx
    rw [setFree_frame fun hx' => hx (Region.mem_of_le hx' (by decide))]
    exact setNext_frame fun hx' => hx (slot_in_page hslot (Region.mem_of_le hx' (by decide)))

theorem slotAt_succ (j : Nat) : slotAt base j + 32 = slotAt base (j + 1) := by
  have h32 : (32 : DWORD) = BitVec.ofNat 32 32 := rfl
  rw [slotAt, h32, add_ofNat_add]
  rfl

/-- The condition of the loop: is there a slot at the place `j`? -/
theorem slotAt_cond {j : Nat} (hj : j < 128) :
    (slotAt base j - base).toNat ≤ MEMORY_BLOCK_SIZE - MEMORY_SLOT_SIZE ↔ j < 127 := by
  rw [slotAt, offset_add base (by omega), MEMORY_BLOCK_SIZE, MEMORY_SLOT_SIZE]
  omega

/-- The loop from the place `j` on ends, and links all slots, the last one first; it writes to the
block only, and not to the count. -/
theorem buildSlots_spec (ha : Aligned base) {m : DWORD → BYTE} {j n fuel : Nat}
    (hjn : j + (n + 1) = 127) (hfuel : n < fuel)
    (hc : Chain (pNext m) 0 (pFree m base) (slotRun base 0 j).reverse) :
    ∃ m', buildSlots base fuel m (slotAt base j) = some m' ∧
      Chain (pNext m') 0 (pFree m' base) (slots base).reverse ∧
      usedCount m' base = usedCount m base ∧
      ∀ x, x ∉ (⟨base, 4096⟩ : Region 32) → m' x = m x := by
  have hj : j < 127 := by omega
  have hlink := link_slot hj ha hc
  obtain ⟨hcount, hframe⟩ := link_slot_frame base (m := m) hj
  induction n generalizing m j fuel with
  | zero =>
    obtain rfl : j = 126 := by omega
    obtain ⟨fuel, rfl⟩ := Nat.exists_eq_succ_of_ne_zero (Nat.ne_of_gt hfuel)
    rw [buildSlots, slotAt_succ, if_neg (by rw [slotAt_cond (by omega)]; omega)]
    rw [slotRun_all] at hlink
    exact ⟨_, rfl, hlink, hcount, hframe⟩
  | succ n ih =>
    obtain ⟨fuel, rfl⟩ := Nat.exists_eq_succ_of_ne_zero (Nat.ne_of_gt (Nat.zero_lt_of_lt hfuel))
    rw [buildSlots, slotAt_succ, if_pos (by rw [slotAt_cond (by omega)]; omega)]
    have hj' : j + 1 < 127 := by omega
    obtain ⟨hcount', hframe'⟩ := link_slot_frame base
      (m := setFree (setNext m (slotAt base j) (pFree m base)) base (slotAt base j)) hj'
    obtain ⟨m', hm', h₁, h₂, h₃⟩ := ih (by omega) (Nat.lt_of_succ_lt_succ hfuel) hlink hj'
      (link_slot hj' ha hlink) hcount' hframe'
    exact ⟨m', hm', h₁, h₂.trans hcount, fun x hx => (h₃ x hx).trans (hframe x hx)⟩

/-- A block of which no slot is used. -/
def freshBlock (base : DWORD) : Block := ⟨base, (slots base).reverse, []⟩

theorem initBlock_spec (ha : Aligned base) (m : DWORD → BYTE) (head : DWORD) :
    ∃ m', initBlock m base head = some m' ∧ (freshBlock base).Holds m' ∧ pNext m' base = head ∧
      ∀ x, x ∉ (⟨base, 4096⟩ : Region 32) → m' x = m x := by
  have hchain : Chain (pNext (setCount (setFree m base 0) base 0)) 0
      (pFree (setCount (setFree m base 0) base 0) base) (slotRun base 0 0).reverse := by
    rw [pFree_setCount, pFree_setFree]
    rfl
  have hfuel : 126 < MEMORY_BLOCK_SIZE / MEMORY_SLOT_SIZE := by decide
  obtain ⟨m₁, hbuild, hslots, hcount, hframe⟩ :=
    buildSlots_spec ha (by omega : 0 + (126 + 1) = 127) hfuel hchain
  have hstart : slotAt base 0 = base + 32 := rfl
  rw [hstart] at hbuild
  rw [usedCount_setCount] at hcount
  have hheader : ∀ x, x ∉ (⟨base, 12⟩ : Region 32) → setNext m₁ base head x = m₁ x := fun x hx =>
    setNext_frame fun hx' => hx (Region.mem_of_le hx' (by decide))
  refine ⟨setNext m₁ base head, ?_, ⟨ha, ?_, ?_, ?_⟩, pNext_setNext, fun x hx => ?_⟩
  · unfold initBlock
    dsimp only
    rw [hbuild, Option.map_some]
  · show Chain _ 0 (pFree (setNext m₁ base head) base) (slots base).reverse
    rw [pFree_setNext]
    refine hslots.congr fun p hp => pNext_congr fun x hx => hheader x fun hx' => ?_
    exact header_disjoint (List.mem_reverse.mp hp) x hx' (Region.mem_of_le hx (by decide))
  · exact usedCount_setNext.trans hcount
  · rw [freshBlock, List.append_nil]
    exact List.reverse_perm _
  · have hx' : x ∉ (⟨base, 12⟩ : Region 32) := fun hx' => hx (Region.mem_of_le hx' (by decide))
    rw [hheader x hx', hframe x hx, setCount_frame hx', setFree_frame hx']

variable {s : BufferState}

theorem newBlock_spec (ha : Aligned base) : ∃ bytes,
    newBlock s base = some ⟨{ virtualAlloc s.mem base with bytes := bytes }, base⟩ ∧
    (freshBlock base).Holds bytes ∧ pNext bytes base = s.g_pMemoryBlocks ∧
    ∀ x, x ∉ (⟨base, 4096⟩ : Region 32) → bytes x = s.mem.bytes x := by
  obtain ⟨bytes, hinit, hb, hnext, hframe⟩ :=
    initBlock_spec ha (virtualAlloc s.mem base).bytes s.g_pMemoryBlocks
  refine ⟨bytes, ?_, hb, hnext, fun x hx => (hframe x hx).trans ?_⟩
  · unfold newBlock
    dsimp only
    rw [hinit, Option.map_some]
  · exact if_neg fun hpage => hx (ha.mem_page.mpr hpage)

end NewBlock

/-! ## The list of blocks -/

/-- The memory holds the blocks, in the order of the list. -/
structure Pool (s : BufferState) (bs : List Block) : Prop where
  chain : Chain (pNext s.mem.bytes) 0 s.g_pMemoryBlocks (bs.map Block.base)
  blocks : ∀ b ∈ bs, b.Holds s.mem.bytes
  apart : (bs.map Block.base).Nodup
  exec : ∀ b ∈ bs, s.mem.protection (pageOf b.base) = PAGE_EXECUTE_READWRITE

/-- The slots that are used. -/
def allocated (bs : List Block) : List DWORD := bs.flatMap Block.used

namespace Pool

variable {s : BufferState} {bs pre post : List Block} {b b' c : Block} {p q x : DWORD}
  {m : DWORD → BYTE}

theorem nil {mem : AddressSpace} : Pool ⟨mem, 0⟩ [] where
  chain := rfl
  blocks := nofun
  apart := List.nodup_nil
  exec := nofun

theorem base_inj (h : Pool s bs) (hb : b ∈ bs) (hb' : b' ∈ bs) (heq : b.base = b'.base) :
    b = b' :=
  List.inj_on_of_nodup_map h.apart hb hb' heq

theorem page_disjoint (h : Pool s bs) (hb : b ∈ bs) (hb' : b' ∈ bs) (hne : b ≠ b') :
    Region.Disjoint (w := 32) ⟨b.base, 4096⟩ ⟨b'.base, 4096⟩ :=
  (h.blocks b hb).aligned.disjoint (h.blocks b' hb').aligned fun heq => hne (h.base_inj hb hb' heq)

theorem mem_allocated : p ∈ allocated bs ↔ ∃ b ∈ bs, p ∈ b.used := List.mem_flatMap

/-- A used slot lies apart from the headers. -/
theorem header_free (h : Pool s bs) (hp : p ∈ allocated bs) (hb : b ∈ bs)
    (hx : x ∈ (⟨p, 32⟩ : Region 32)) : x ∉ (⟨b.base, 12⟩ : Region 32) := by
  obtain ⟨b', hb', hp⟩ := mem_allocated.mp hp
  have hslot := (h.blocks b' hb').used_mem hp
  intro hx'
  by_cases heq : b = b'
  · subst heq
    exact header_disjoint hslot x hx' hx
  · exact h.page_disjoint hb hb' heq x (Region.mem_of_le hx' (by decide)) (slot_in_page hslot hx)

/-- Two used slots lie apart. -/
theorem allocated_disjoint (h : Pool s bs) (hp : p ∈ allocated bs) (hq : q ∈ allocated bs)
    (hne : p ≠ q) : Region.Disjoint (w := 32) ⟨p, 32⟩ ⟨q, 32⟩ := by
  obtain ⟨b, hb, hp⟩ := mem_allocated.mp hp
  obtain ⟨b', hb', hq⟩ := mem_allocated.mp hq
  have hp' := (h.blocks b hb).used_mem hp
  have hq' := (h.blocks b' hb').used_mem hq
  by_cases heq : b = b'
  · subst heq
    exact slots_disjoint hp' hq' hne
  · exact fun x hx hx' => h.page_disjoint hb hb' heq x (slot_in_page hp' hx) (slot_in_page hq' hx')

/-- No slot is used twice. -/
theorem allocated_nodup (h : Pool s bs) : (allocated bs).Nodup := by
  refine List.nodup_flatMap.mpr ⟨fun b hb => ((h.blocks b hb).nodup).of_append_right, ?_⟩
  have hpair : bs.Pairwise fun b b' => b.base ≠ b'.base := List.pairwise_map.mp h.apart
  refine hpair.imp_of_mem fun {b b'} hb hb' hne => ?_
  intro p hp hp'
  have hd := h.page_disjoint hb hb' fun heq => hne (heq ▸ rfl)
  have hself : p ∈ (⟨p, 32⟩ : Region 32) := by simp [Region.mem_iff]
  exact hd p (slot_in_page ((h.blocks b hb).used_mem hp) hself)
    (slot_in_page ((h.blocks b' hb').used_mem hp') hself)

/-- There are fewer blocks than pages. -/
theorem length_lt (h : Pool s bs) : bs.length < maxBlocks := by
  have hnd : (bs.map fun b => b.base.toNat / 4096).Nodup := by
    refine List.Nodup.map_on (fun b hb b' hb' heq => ?_) (List.Nodup.of_map _ h.apart)
    refine h.base_inj hb hb' (BitVec.eq_of_toNat_eq ?_)
    have ha := (h.blocks b hb).aligned
    have ha' := (h.blocks b' hb').aligned
    rw [Aligned] at ha ha'
    omega
  have hsub : (bs.map fun b => b.base.toNat / 4096) ⊆ List.range' 1 (maxBlocks - 1) := by
    intro n hn
    obtain ⟨b, hb, rfl⟩ := List.mem_map.mp hn
    have hne : b.base ≠ 0 := h.chain.ne_null _ (List.mem_map_of_mem hb)
    have hpos : b.base.toNat ≠ 0 := fun h0 => hne (BitVec.eq_of_toNat_eq h0)
    have ha := (h.blocks b hb).aligned
    have hlt := b.base.isLt
    rw [Aligned] at ha
    rw [List.mem_range'_1, maxBlocks]
    omega
  have hlen := (hnd.subperm hsub).length_le
  rw [List.length_map, List.length_range', maxBlocks] at hlen
  rw [maxBlocks]
  omega

/-- The blocks are held by their headers, their free slots and the protection of their pages. -/
theorem congr (h : Pool s bs) {mem : AddressSpace}
    (hheader : ∀ b ∈ bs, ∀ x ∈ (⟨b.base, 12⟩ : Region 32), mem.bytes x = s.mem.bytes x)
    (hfree : ∀ b ∈ bs, ∀ p ∈ b.free, ∀ x ∈ (⟨p, 32⟩ : Region 32), mem.bytes x = s.mem.bytes x)
    (hprot : ∀ b ∈ bs, mem.protection (pageOf b.base) = s.mem.protection (pageOf b.base)) :
    Pool ⟨mem, s.g_pMemoryBlocks⟩ bs where
  chain := by
    refine h.chain.congr fun y hy => ?_
    obtain ⟨b, hb, rfl⟩ := List.mem_map.mp hy
    exact pNext_congr fun x hx => hheader b hb x (Region.mem_of_le hx (by decide))
  blocks b hb := (h.blocks b hb).congr (hheader b hb) fun p hp x hx =>
    hfree b hb p hp x (Region.mem_of_le hx (by decide))
  apart := h.apart
  exec b hb := (hprot b hb).trans (h.exec b hb)

/-- A used slot lies apart from the free ones. -/
theorem free_disjoint (h : Pool s bs) (hp : p ∈ allocated bs) (hb : b ∈ bs) (hq : q ∈ b.free) :
    Region.Disjoint (w := 32) ⟨p, 32⟩ ⟨q, 32⟩ := by
  obtain ⟨b', hb', hp⟩ := mem_allocated.mp hp
  have hp' := (h.blocks b' hb').used_mem hp
  have hq' := (h.blocks b hb).free_mem hq
  by_cases heq : b' = b
  · subst heq
    refine slots_disjoint hp' hq' ?_
    rintro rfl
    exact (List.nodup_append.mp (h.blocks b' hb').nodup).2.2 p hq p hp rfl
  · exact fun x hx hx' => h.page_disjoint hb' hb heq x (slot_in_page hp' hx) (slot_in_page hq' hx')

/-- What is written to a used slot leaves the blocks as they are. -/
theorem write (h : Pool s bs) (hp : p ∈ allocated bs)
    (hm : ∀ x, x ∉ (⟨p, 32⟩ : Region 32) → m x = s.mem.bytes x) :
    Pool ⟨{ s.mem with bytes := m }, s.g_pMemoryBlocks⟩ bs := by
  refine h.congr (fun b hb x hx => ?_) (fun b hb q hq x hx => ?_) fun _ _ => rfl
  · exact hm x fun hx' => h.header_free hp hb hx' hx
  · exact hm x fun hx' => h.free_disjoint hp hb hq x hx' hx

/-- The other blocks stay when one page changes. -/
theorem other (h : Pool s bs) (hb : b ∈ bs)
    (hm : ∀ x, x ∉ (⟨b.base, 4096⟩ : Region 32) → m x = s.mem.bytes x) (hc : c ∈ bs)
    (hne : c ≠ b) : c.Holds m ∧ pNext m c.base = pNext s.mem.bytes c.base := by
  have hsame : ∀ x ∈ (⟨c.base, 4096⟩ : Region 32), m x = s.mem.bytes x := fun x hx =>
    hm x (h.page_disjoint hc hb hne x hx)
  have hold := h.blocks c hc
  refine ⟨hold.congr (fun x hx => hsame x (Region.mem_of_le hx (by decide))) fun p hp x hx => ?_,
    pNext_congr fun x hx => hsame x (Region.mem_of_le hx (by decide))⟩
  exact hsame x (slot_in_page (hold.free_mem hp) (Region.mem_of_le hx (by decide)))

/-- A block of the list, and the others. -/
theorem mem_split (h : Pool s (pre ++ b :: post)) (hc : c ∈ pre ∨ c ∈ post) :
    c ∈ pre ++ b :: post ∧ c ≠ b := by
  have hnd := List.Nodup.of_map _ h.apart
  constructor
  · rw [List.mem_append, List.mem_cons]
    exact hc.imp_right .inr
  · rintro rfl
    exact (List.nodup_middle.mp hnd).notMem (List.mem_append.mpr hc)

theorem mem_self : b ∈ pre ++ b :: post := List.mem_append_right _ (List.mem_cons_self ..)

/-- One block changes, and nothing outside it. -/
theorem update (h : Pool s (pre ++ b :: post)) (b' : Block) (hb' : b'.Holds m)
    (hbase : b'.base = b.base)
    (hnext : pNext m b.base = pNext s.mem.bytes b.base)
    (hm : ∀ x, x ∉ (⟨b.base, 4096⟩ : Region 32) → m x = s.mem.bytes x) :
    Pool ⟨{ s.mem with bytes := m }, s.g_pMemoryBlocks⟩ (pre ++ b' :: post) := by
  have hbs : (pre ++ b' :: post).map Block.base = (pre ++ b :: post).map Block.base := by
    simp [hbase]
  constructor
  case chain =>
    rw [hbs]
    refine h.chain.congr fun y hy => ?_
    obtain ⟨c, hc, rfl⟩ := List.mem_map.mp hy
    rw [List.mem_append, List.mem_cons, or_left_comm] at hc
    rcases hc with rfl | hc
    · exact hnext
    · obtain ⟨hmem, hne⟩ := h.mem_split hc
      exact (h.other mem_self hm hmem hne).2
  case blocks =>
    intro c hc
    rw [List.mem_append, List.mem_cons, or_left_comm] at hc
    rcases hc with rfl | hc
    · exact hb'
    · obtain ⟨hmem, hne⟩ := h.mem_split hc
      exact (h.other mem_self hm hmem hne).1
  case apart =>
    rw [hbs]
    exact h.apart
  case exec =>
    intro c hc
    rw [List.mem_append, List.mem_cons, or_left_comm] at hc
    rcases hc with rfl | hc
    · rw [hbase]
      exact h.exec b mem_self
    · exact h.exec c (h.mem_split hc).1

theorem pageOf_ne (h : Pool s bs) (hb : b ∈ bs) (hc : c ∈ bs) (hne : c ≠ b) :
    pageOf c.base ≠ pageOf b.base := by
  have hself : c.base ∈ (⟨c.base, 4096⟩ : Region 32) := by simp [Region.mem_iff]
  intro heq
  exact h.page_disjoint hc hb hne c.base hself ((h.blocks b hb).aligned.mem_page.mpr heq)

/-- A block is taken out of the list and freed. -/
theorem unlinkBlock (h : Pool s (pre ++ b :: post)) :
    Pool (unlinkBlock s ((0 :: pre.map Block.base).getLast (List.cons_ne_nil _ _)) b.base)
      (pre ++ post) := by
  have hexec : ∀ c, c ∈ pre ++ post →
      (virtualFree s.mem b.base).protection (pageOf c.base) = PAGE_EXECUTE_READWRITE := by
    intro c hc
    obtain ⟨hmem, hne⟩ := h.mem_split (List.mem_append.mp hc)
    exact (Function.update_of_ne (h.pageOf_ne mem_self hmem hne) ..).trans (h.exec c hmem)
  have hsub : (pre ++ post).map Block.base |>.Nodup :=
    h.apart.sublist (List.Sublist.map _ ((List.sublist_cons_self ..).append_left pre))
  rcases List.eq_nil_or_concat pre with rfl | ⟨pre, d, rfl⟩
  · -- the head of the list
    constructor
    case chain => exact h.chain.pop
    case blocks => exact fun c hc => h.blocks c (h.mem_split (List.mem_append.mp hc)).1
    case apart => exact hsub
    case exec => exact hexec
  · rw [List.concat_eq_append] at h hexec hsub ⊢
    have hd : d ∈ pre ++ [d] ++ b :: post := by simp
    have hd0 : d.base ≠ 0 := h.chain.ne_null _ (List.mem_map_of_mem hd)
    have hlast : (0 :: (pre ++ [d]).map Block.base).getLast (List.cons_ne_nil _ _) = d.base := by
      simp
    have hframe : ∀ x, x ∉ (⟨d.base, 4096⟩ : Region 32) →
        setNext s.mem.bytes d.base (pNext s.mem.bytes b.base) x = s.mem.bytes x := fun x hx =>
      setNext_frame fun hx' => hx (Region.mem_of_le hx' (by decide))
    rw [hlast, Bossran.unlinkBlock, if_pos hd0]
    constructor
    case chain =>
      have hc := h.chain
      rw [List.append_assoc, List.map_append, List.singleton_append, List.map_cons,
        List.map_cons] at hc
      rw [List.append_assoc, List.map_append, List.singleton_append, List.map_cons]
      refine hc.unlink pNext_setNext fun y hy => ?_
      rw [← List.map_append] at hy
      obtain ⟨c, hc, rfl⟩ := List.mem_map.mp hy
      have hcd : c ∈ pre ++ [d] ++ b :: post ∧ c ≠ d := by
        rw [List.append_assoc] at h
        have hc' := h.mem_split (c := c) (by
          rw [List.mem_append] at hc
          exact hc.imp_right (List.mem_cons_of_mem _))
        rwa [List.append_assoc]
      exact (h.other hd hframe hcd.1 hcd.2).2
    case blocks =>
      intro c hc
      have hmem := (h.mem_split (List.mem_append.mp hc)).1
      by_cases hne : c = d
      · subst hne
        exact (h.blocks c hd).setNext _
      · exact (h.other hd hframe hmem hne).1
    case apart => exact hsub
    case exec => exact hexec

/-- Taking a block out writes to headers only, and frees its page only. -/
theorem unlinkBlock_frame (h : Pool s (pre ++ b :: post)) :
    (∀ x, (∀ c ∈ pre ++ b :: post, x ∉ (⟨c.base, 12⟩ : Region 32)) →
      (Bossran.unlinkBlock s ((0 :: pre.map Block.base).getLast (List.cons_ne_nil _ _))
        b.base).mem.bytes x = s.mem.bytes x) ∧
    (∀ page ≠ pageOf b.base,
      (Bossran.unlinkBlock s ((0 :: pre.map Block.base).getLast (List.cons_ne_nil _ _))
        b.base).mem.protection page = s.mem.protection page) ∧
    (Bossran.unlinkBlock s ((0 :: pre.map Block.base).getLast (List.cons_ne_nil _ _))
        b.base).mem.protection (pageOf b.base) = 0 := by
  rcases List.eq_nil_or_concat pre with rfl | ⟨pre, d, rfl⟩
  · exact ⟨fun _ _ => rfl, fun page hpage => Function.update_of_ne hpage ..,
      Function.update_self ..⟩
  · rw [List.concat_eq_append] at h ⊢
    have hd : d ∈ pre ++ [d] ++ b :: post := by simp
    have hd0 : d.base ≠ 0 := h.chain.ne_null _ (List.mem_map_of_mem hd)
    have hlast : (0 :: (pre ++ [d]).map Block.base).getLast (List.cons_ne_nil _ _) = d.base := by
      simp
    rw [hlast, Bossran.unlinkBlock, if_pos hd0]
    refine ⟨fun x hx => ?_, fun page hpage => Function.update_of_ne hpage ..,
      Function.update_self ..⟩
    exact setNext_frame fun hx' => hx d hd (Region.mem_of_le hx' (by decide))

/-- A new block at the head. -/
theorem cons (h : Pool s bs) {base : DWORD} (ha : Aligned base) (h0 : base ≠ 0)
    (hnew : base ∉ bs.map Block.base) : ∃ bytes,
    newBlock s base = some ⟨{ virtualAlloc s.mem base with bytes := bytes }, base⟩ ∧
    Pool ⟨{ virtualAlloc s.mem base with bytes := bytes }, base⟩ (freshBlock base :: bs) ∧
    ∀ x, x ∉ (⟨base, 4096⟩ : Region 32) → bytes x = s.mem.bytes x := by
  obtain ⟨bytes, hblock, hb, hnext, hframe⟩ := newBlock_spec (s := s) ha
  have happart : ∀ c ∈ bs, Region.Disjoint (w := 32) ⟨c.base, 4096⟩ ⟨base, 4096⟩ := fun c hc =>
    (h.blocks c hc).aligned.disjoint ha fun heq => hnew (heq ▸ List.mem_map_of_mem hc)
  refine ⟨bytes, hblock, ?_, hframe⟩
  constructor
  case chain =>
    refine h.chain.push h0 hnext fun y hy => ?_
    obtain ⟨c, hc, rfl⟩ := List.mem_map.mp hy
    exact pNext_congr fun x hx => hframe x (happart c hc x (Region.mem_of_le hx (by decide)))
  case blocks =>
    intro c hc
    rcases List.mem_cons.mp hc with rfl | hc
    · exact hb
    · have hold := h.blocks c hc
      refine hold.congr (fun x hx => hframe x (happart c hc x (Region.mem_of_le hx (by decide))))
        fun p hp x hx => hframe x (happart c hc x ?_)
      exact slot_in_page (hold.free_mem hp) (Region.mem_of_le hx (by decide))
  case apart => exact List.nodup_cons.mpr ⟨hnew, h.apart⟩
  case exec =>
    intro c hc
    rcases List.mem_cons.mp hc with rfl | hc
    · exact Function.update_self ..
    · have hne : pageOf c.base ≠ pageOf base := by
        intro heq
        have hself : c.base ∈ (⟨c.base, 4096⟩ : Region 32) := by simp [Region.mem_iff]
        exact happart c hc c.base hself (ha.mem_page.mpr heq)
      exact (Function.update_of_ne hne ..).trans (h.exec c hc)

end Pool

end Bossran
