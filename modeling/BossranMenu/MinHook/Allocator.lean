import BossranMenu.MinHook.Pool
import BossranMenu.Lib.Machine

/-!
# The allocator of slots (`buffer.c`)

`allocPool` and `freeSlot` are the allocator on lists of blocks.

* `Pool.allocateBuffer`, `Pool.freeBuffer`, `Pool.uninitializeBuffer`: the operations in the memory
  end, and are those on the lists. `Kept` is what they leave as it was.
* `allocator_run`: in every run no two slots overlap, each keeps what was written to it, and the
  pages in use are those of the slots.
-/

namespace Bossran

open Memory LinkedList

/-! ## The allocator on lists -/

/-- The first block with a free slot gives its first one. -/
def allocSlot : List Block → Option (List Block × DWORD)
  | [] => none
  | ⟨base, [], used⟩ :: bs => (allocSlot bs).map fun r => (⟨base, [], used⟩ :: r.1, r.2)
  | ⟨base, p :: free, used⟩ :: bs => some (⟨base, free, p :: used⟩ :: bs, p)

/-- If there is none, a new block does. -/
def allocPool (base : Option DWORD) (bs : List Block) : Option (List Block × DWORD) :=
  (allocSlot bs).or (base.bind fun base => allocSlot (freshBlock base :: bs))

/-- The slot is given back to its block, which goes when it was the last one used. -/
def freeSlot (p : DWORD) : List Block → List Block
  | [] => []
  | b :: bs =>
    if b.base = targetBlock p then
      if b.used.erase p = [] then bs else ⟨b.base, p :: b.free, b.used.erase p⟩ :: bs
    else b :: freeSlot p bs

section Lists

variable {bs bs' pre post : List Block} {b : Block} {base p : DWORD} {free used : List DWORD}

theorem allocSlot_append (hpre : ∀ c ∈ pre, c.free = []) :
    allocSlot (pre ++ ⟨base, p :: free, used⟩ :: post) =
      some (pre ++ ⟨base, free, p :: used⟩ :: post, p) := by
  induction pre with
  | nil => rfl
  | cons c pre ih =>
    obtain ⟨cbase, cfree, cused⟩ := c
    obtain rfl : cfree = [] := hpre _ (List.mem_cons_self ..)
    rw [List.cons_append, allocSlot, ih fun c hc => hpre c (List.mem_cons_of_mem _ hc)]
    rfl

theorem allocSlot_eq_none : allocSlot bs = none ↔ ∀ c ∈ bs, c.free = [] := by
  induction bs with
  | nil => simp [allocSlot]
  | cons c bs ih =>
    obtain ⟨cbase, _ | ⟨q, cfree⟩, cused⟩ := c
    · simp [allocSlot, ih]
    · simp [allocSlot]

/-- Either every slot is used, or the blocks are split at the one that gives its slot. -/
theorem free_cases (bs : List Block) : (∀ c ∈ bs, c.free = []) ∨
    ∃ pre base p free used post, bs = pre ++ ⟨base, p :: free, used⟩ :: post ∧
      ∀ c ∈ pre, c.free = [] := by
  induction bs with
  | nil => exact .inl nofun
  | cons c bs ih =>
    obtain ⟨cbase, _ | ⟨q, cfree⟩, cused⟩ := c
    · obtain hall | ⟨pre, base, p, free, used, post, rfl, hpre⟩ := ih
      · exact .inl fun c hc => (List.mem_cons.mp hc).elim (fun h => h ▸ rfl) (hall c)
      · refine .inr ⟨⟨cbase, [], cused⟩ :: pre, base, p, free, used, post, rfl, fun c hc => ?_⟩
        exact (List.mem_cons.mp hc).elim (fun h => h ▸ rfl) (hpre c)
    · exact .inr ⟨[], cbase, q, cfree, cused, bs, rfl, nofun⟩

theorem freeSlot_append (hpre : ∀ c ∈ pre, c.base ≠ targetBlock p) (hb : b.base = targetBlock p) :
    freeSlot p (pre ++ b :: post) = pre ++
      if b.used.erase p = [] then post else ⟨b.base, p :: b.free, b.used.erase p⟩ :: post := by
  induction pre with
  | nil => simp only [List.nil_append, freeSlot, if_pos hb]
  | cons c pre ih =>
    rw [List.cons_append, freeSlot, if_neg (hpre c (List.mem_cons_self ..)),
      ih fun c hc => hpre c (List.mem_cons_of_mem _ hc)]
    rfl

@[simp] theorem allocated_append : allocated (bs ++ bs') = allocated bs ++ allocated bs' :=
  List.flatMap_append

@[simp] theorem allocated_cons : allocated (b :: bs) = b.used ++ allocated bs :=
  List.flatMap_cons

/-- The slot is new among those that are used. -/
theorem allocSlot_perm (h : allocSlot bs = some (bs', p)) :
    (allocated bs').Perm (p :: allocated bs) ∧ bs'.map Block.base = bs.map Block.base := by
  obtain hall | ⟨pre, base, q, free, used, post, rfl, hpre⟩ := free_cases bs
  · rw [allocSlot_eq_none.mpr hall] at h
    cases h
  · rw [allocSlot_append hpre] at h
    obtain ⟨rfl, rfl⟩ := Prod.mk.inj (Option.some.inj h)
    refine ⟨?_, by simp⟩
    simp only [allocated_append, allocated_cons, List.cons_append]
    exact List.perm_middle

end Lists

/-! ## The operations in the memory -/

/-- What an operation leaves as it was, the blocks being `bs` before and `bs'` after it. A page that
is no block any more has been freed. -/
structure Kept (m m' : AddressSpace) (bs bs' : List Block) : Prop where
  slots : ∀ p ∈ allocated bs, p ∈ allocated bs' → ∀ x ∈ (⟨p, 32⟩ : Region 32),
    m'.bytes x = m.bytes x
  outside : ∀ x, (∀ b ∈ bs, pageOf x ≠ pageOf b.base) → (∀ b ∈ bs', pageOf x ≠ pageOf b.base) →
    m'.bytes x = m.bytes x
  protection : ∀ page, (∀ b ∈ bs, page ≠ pageOf b.base) → (∀ b ∈ bs', page ≠ pageOf b.base) →
    m'.protection page = m.protection page
  freed : ∀ b ∈ bs, (∀ c ∈ bs', pageOf b.base ≠ pageOf c.base) →
    m'.protection (pageOf b.base) = 0

/-- What `VirtualAlloc` returns: a page that was not in use. -/
structure Vacant (m : AddressSpace) (base : DWORD) : Prop where
  aligned : Aligned base
  ne_zero : base ≠ 0
  free : m.protection (pageOf base) = 0

instance (m : AddressSpace) (base : DWORD) : Decidable (Vacant m base) :=
  decidable_of_iff (Aligned base ∧ base ≠ 0 ∧ m.protection (pageOf base) = 0)
    ⟨fun h => ⟨h.1, h.2.1, h.2.2⟩, fun h => ⟨h.aligned, h.ne_zero, h.free⟩⟩

/-- What `VirtualAlloc` returns, if it returns a page. -/
instance decidableVacant (m : AddressSpace) :
    (base : Option DWORD) → Decidable (∀ b, base = some b → Vacant m b)
  | none => isTrue fun _ h => by cases h
  | some b => decidable_of_iff (Vacant m b)
      ⟨fun h _ hb => Option.some.inj hb ▸ h, fun h => h b rfl⟩

namespace Pool

variable {s s' : BufferState} {bs bs' pre post : List Block} {b : Block} {base p : DWORD}
  {free used : List DWORD}

theorem vacant_new (h : Pool s bs) (hv : Vacant s.mem base) : base ∉ bs.map Block.base := by
  intro hmem
  obtain ⟨b, hb, rfl⟩ := List.mem_map.mp hmem
  have hexec := h.exec b hb
  rw [hv.free] at hexec
  cases hexec

theorem slot_ne_zero (h : Pool s bs) (hp : p ∈ allocated bs) : p ≠ 0 := by
  obtain ⟨b, hb, hp⟩ := mem_allocated.mp hp
  exact (h.blocks b hb).aligned.slot_ne_zero ((h.blocks b hb).used_mem hp)

/-- A used slot lies in the page of its block. -/
theorem pageOf_slot (h : Pool s bs) (hp : p ∈ allocated bs) {x : DWORD}
    (hx : x ∈ (⟨p, 32⟩ : Region 32)) : ∃ b ∈ bs, pageOf x = pageOf b.base := by
  obtain ⟨b, hb, hp⟩ := mem_allocated.mp hp
  have hold := h.blocks b hb
  exact ⟨b, hb, hold.aligned.mem_page.mp (slot_in_page (hold.used_mem hp) hx)⟩

theorem mem_header (h : Pool s bs) (hb : b ∈ bs) {x : DWORD} (hx : x ∈ (⟨b.base, 12⟩ : Region 32)) :
    pageOf x = pageOf b.base :=
  (h.blocks b hb).aligned.mem_page.mp (Region.mem_of_le hx (by decide))

/-- Another block with the same base. -/
theorem replace_base (b' : Block) {c : Block} (hbase : b'.base = b.base)
    (hc : c ∈ pre ++ b :: post) :
    ∃ d ∈ pre ++ b' :: post, pageOf c.base = pageOf d.base := by
  rw [List.mem_append, List.mem_cons, or_left_comm] at hc
  rcases hc with rfl | hc
  · exact ⟨b', mem_self, by rw [hbase]⟩
  · refine ⟨c, ?_, rfl⟩
    rw [List.mem_append, List.mem_cons]
    exact hc.imp_right .inr

/-- A block with a free slot is found. -/
theorem getMemoryBlock_found (h : Pool s (pre ++ ⟨base, p :: free, used⟩ :: post))
    (hpre : ∀ c ∈ pre, c.free = []) (alloc : Option DWORD) :
    getMemoryBlock s alloc = some (s, base) := by
  have hb := h.blocks _ mem_self
  have hbase : base ≠ 0 := h.chain.ne_null base (List.mem_map_of_mem (f := Block.base) mem_self)
  have hlen := h.length_lt
  have hchain := h.chain
  rw [List.map_append, List.map_cons] at hchain
  have hwalk := walk_found (fun pBlock => pFree s.mem.bytes pBlock ≠ 0) maxBlocks 0 hchain
    (fun y hy => ?_) ?_ ?_
  · unfold getMemoryBlock
    rw [hwalk, Option.bind_some, if_pos hbase]
  · obtain ⟨c, hc, rfl⟩ := List.mem_map.mp hy
    have hzero : pFree s.mem.bytes c.base = 0 :=
      (h.blocks c (h.mem_split (.inl hc)).1).chain.eq_null.mpr (hpre c hc)
    simp [hzero]
  · have hfree : pFree s.mem.bytes base ≠ 0 := fun h0 => nomatch hb.chain.eq_null.mp h0
    simpa using hfree
  · rw [List.length_map]
    rw [List.length_append] at hlen
    omega

/-- If every slot is used, the result is a new block. -/
theorem getMemoryBlock_full (h : Pool s bs) (hall : ∀ c ∈ bs, c.free = []) (alloc : Option DWORD) :
    getMemoryBlock s alloc = match alloc with
      | some pBlock => (newBlock s pBlock).map (·, pBlock)
      | none => some (s, 0) := by
  have hwalk := walk_notFound (fun pBlock => pFree s.mem.bytes pBlock ≠ 0) maxBlocks 0 h.chain
    (fun y hy => ?_) (by rw [List.length_map]; exact h.length_lt)
  · unfold getMemoryBlock
    rw [hwalk, Option.bind_some]
    exact if_neg (not_not.mpr rfl)
  · obtain ⟨c, hc, rfl⟩ := List.mem_map.mp hy
    have hzero : pFree s.mem.bytes c.base = 0 := (h.blocks c hc).chain.eq_null.mpr (hall c hc)
    simp [hzero]

/-- The slot is taken from the block that was found. -/
theorem allocateBuffer_of_block {s₁ : BufferState} {alloc : Option DWORD}
    (hg : getMemoryBlock s alloc = some (s₁, base))
    (h : Pool s₁ (pre ++ ⟨base, p :: free, used⟩ :: post)) : ∃ s',
    allocateBuffer s alloc = some (s', p) ∧ Pool s' (pre ++ ⟨base, free, p :: used⟩ :: post) ∧
      s'.mem.protection = s₁.mem.protection ∧
      ∀ x, x ∉ (⟨base, 12⟩ : Region 32) → s'.mem.bytes x = s₁.mem.bytes x := by
  have hb := h.blocks _ mem_self
  have hbase : base ≠ 0 := h.chain.ne_null base (List.mem_map_of_mem (f := Block.base) mem_self)
  have hp : pFree s₁.mem.bytes base = p := hb.chain.1
  have hframe : ∀ x, x ∉ (⟨base, 12⟩ : Region 32) →
      setCount (setFree s₁.mem.bytes base (pNext s₁.mem.bytes p)) base
        (usedCount (setFree s₁.mem.bytes base (pNext s₁.mem.bytes p)) base + 1) x =
      s₁.mem.bytes x := fun x hx => (setCount_frame hx).trans (setFree_frame hx)
  have hpool := h.update ⟨base, free, p :: used⟩
    (m := setCount (setFree s₁.mem.bytes base (pNext s₁.mem.bytes p)) base
      (usedCount (setFree s₁.mem.bytes base (pNext s₁.mem.bytes p)) base + 1))
    (by rw [usedCount_setFree]; exact hb.pop) rfl (pNext_setCount.trans pNext_setFree)
    fun x hx => hframe x fun hx' => hx (Region.mem_of_le hx' (by decide))
  refine ⟨_, ?_, hpool, rfl, hframe⟩
  rw [allocateBuffer, hg, Option.map_some]
  dsimp only
  rw [if_neg hbase, hp]

/-- `AllocateBuffer` is `allocPool`. -/
theorem allocateBuffer (h : Pool s bs) {alloc : Option DWORD}
    (hv : ∀ base, alloc = some base → Vacant s.mem base) :
    ∃ s' p, Bossran.allocateBuffer s alloc = some (s', p) ∧
      (allocPool alloc bs = none ∧ s' = s ∧ p = 0 ∨
        ∃ bs', allocPool alloc bs = some (bs', p) ∧ Pool s' bs' ∧ Kept s.mem s'.mem bs bs') := by
  obtain hall | ⟨pre, base, p, free, used, post, rfl, hpre⟩ := free_cases bs
  · have hg := h.getMemoryBlock_full hall alloc
    have hnone := allocSlot_eq_none.mpr hall
    cases alloc with
    | none =>
      refine ⟨s, 0, ?_, .inl ⟨by rw [allocPool, hnone]; rfl, rfl, rfl⟩⟩
      rw [Bossran.allocateBuffer, hg]
      rfl
    | some base =>
      -- a new block, and its last slot
      have hvac := hv base rfl
      obtain ⟨bytes, hblock, hcons, hout⟩ :=
        h.cons hvac.aligned hvac.ne_zero (h.vacant_new hvac)
      obtain ⟨p, free, hfree⟩ : ∃ p free, (slots base).reverse = p :: free := ⟨_, _, rfl⟩
      rw [freshBlock, hfree] at hcons
      dsimp only at hg
      rw [hblock, Option.map_some] at hg
      obtain ⟨s', hs', hpool, hprot, hframe⟩ := allocateBuffer_of_block hg
        (show Pool _ ([] ++ ⟨base, p :: free, []⟩ :: bs) from hcons)
      refine ⟨s', p, hs', .inr ⟨_, ?_, hpool, ?_⟩⟩
      · rw [allocPool, hnone, Option.none_or, Option.bind_some, freshBlock, hfree]
        rfl
      · have hbytes : ∀ x, pageOf x ≠ pageOf base → s'.mem.bytes x = s.mem.bytes x := by
          intro x hx
          have hpage : x ∉ (⟨base, 4096⟩ : Region 32) :=
            fun hx' => hx (hvac.aligned.mem_page.mp hx')
          rw [hframe x fun hx' => hpage (Region.mem_of_le hx' (by decide))]
          exact hout x hpage
        have hself : (⟨base, free, [p]⟩ : Block) ∈ [] ++ ⟨base, free, [p]⟩ :: bs :=
          List.mem_cons_self ..
        constructor
        · intro q hq _ x hx
          obtain ⟨b, hb, hpage⟩ := h.pageOf_slot hq hx
          refine hbytes x fun heq => ?_
          have hexec := h.exec b hb
          rw [← hpage, heq, hvac.free] at hexec
          cases hexec
        · exact fun x _ hx => hbytes x (hx ⟨base, free, [p]⟩ hself)
        · intro page _ hpage
          rw [hprot]
          exact Function.update_of_ne (hpage ⟨base, free, [p]⟩ hself) ..
        · exact fun b hb hgone => absurd rfl (hgone b (List.mem_cons_of_mem _ hb))
  · obtain ⟨s', hs', hpool, hprot, hframe⟩ :=
      allocateBuffer_of_block (h.getMemoryBlock_found hpre alloc) h
    refine ⟨s', p, hs', .inr ⟨_, ?_, hpool, ?_⟩⟩
    · rw [allocPool, allocSlot_append hpre]
      rfl
    · have hself : (⟨base, p :: free, used⟩ : Block) ∈ pre ++ ⟨base, p :: free, used⟩ :: post :=
        mem_self
      have hpage : ∀ x ∈ (⟨base, 12⟩ : Region 32), pageOf x = pageOf base := fun x hx =>
        h.mem_header (b := ⟨base, p :: free, used⟩) hself hx
      constructor
      · exact fun q hq _ x hx => hframe x
          (h.header_free (b := ⟨base, p :: free, used⟩) hq hself hx)
      · exact fun x hx _ => hframe x fun hx' => hx ⟨base, p :: free, used⟩ hself (hpage x hx')
      · exact fun page _ _ => by rw [hprot]
      · intro b hb hgone
        obtain ⟨d, hd, heq⟩ := replace_base (b := ⟨base, p :: free, used⟩)
          ⟨base, free, p :: used⟩ rfl hb
        exact absurd heq (hgone d hd)

/-! ### Giving a slot back -/

/-- The block of a used slot, among the others. -/
theorem block_of_slot (h : Pool s bs) (hp : p ∈ allocated bs) :
    ∃ pre base free used post, bs = pre ++ ⟨base, free, used⟩ :: post ∧ p ∈ used ∧
      targetBlock p = base ∧ ∀ c ∈ pre, c.base ≠ base := by
  obtain ⟨⟨base, free, used⟩, hb, hused⟩ := mem_allocated.mp hp
  obtain ⟨pre, post, rfl⟩ := List.append_of_mem hb
  have hold := h.blocks _ mem_self
  refine ⟨pre, base, free, used, post, rfl, hused,
    hold.aligned.targetBlock_slot (hold.used_mem hused), fun c hc heq => ?_⟩
  obtain ⟨hmem, hne⟩ := h.mem_split (.inl hc)
  exact hne (h.base_inj hmem mem_self heq)

theorem freeSlot_of_block (h : Pool s bs) (hp : p ∈ allocated bs) :
    (p :: allocated (freeSlot p bs)).Perm (allocated bs) := by
  obtain ⟨pre, base, free, used, post, rfl, hused, htarget, hpre⟩ := h.block_of_slot hp
  have herase := List.perm_cons_erase hused
  rw [freeSlot_append (fun c hc => htarget ▸ hpre c hc) htarget.symm, allocated_append,
    allocated_append, allocated_cons]
  refine List.perm_middle.symm.trans (List.Perm.append_left _ ?_)
  dsimp only
  split
  · rename_i hlast
    rw [hlast] at herase
    exact (herase.symm.append_right (allocated post))
  · rw [allocated_cons]
    exact (herase.symm.append_right (allocated post))

/-- The count of a block is zero when its last slot has been given back. -/
theorem usedCount_eq_zero (h : Pool s bs) (hb : b ∈ bs) :
    usedCount s.mem.bytes b.base = 0 ↔ b.used = [] := by
  have hold := h.blocks b hb
  have hlen := hold.length_le
  rw [hold.count, ← BitVec.toNat_inj, BitVec.toNat_ofNat, Nat.mod_eq_of_lt (by omega)]
  exact List.length_eq_zero_iff

/-- `pTargetBlock` is found, with the block in front of it. -/
theorem walk_block (h : Pool s (pre ++ ⟨base, free, used⟩ :: post))
    (hpre : ∀ c ∈ pre, c.base ≠ base) :
    walk (pNext s.mem.bytes) 0 (fun pBlock => pBlock = base) maxBlocks 0 s.g_pMemoryBlocks =
      some ((0 :: pre.map Block.base).getLast (List.cons_ne_nil _ _), base) := by
  have hchain := h.chain
  have hlen := h.length_lt
  rw [List.map_append, List.map_cons] at hchain
  refine walk_found _ _ _ hchain (fun y hy => ?_) (by simp) ?_
  · obtain ⟨c, hc, rfl⟩ := List.mem_map.mp hy
    simp [hpre c hc]
  · rw [List.length_map]
    rw [List.length_append] at hlen
    omega

theorem releaseSlot (h : Pool s (pre ++ ⟨base, free, used⟩ :: post)) (hp : p ∈ used) :
    Pool (releaseSlot s base p) (pre ++ ⟨base, p :: free, used.erase p⟩ :: post) ∧
      ∀ x, x ∉ (⟨base, 12⟩ : Region 32) → x ∉ (⟨p, 32⟩ : Region 32) →
        (Bossran.releaseSlot s base p).mem.bytes x = s.mem.bytes x := by
  have hb := h.blocks _ mem_self
  have hslot := hb.used_mem hp
  have hframe : ∀ x, x ∉ (⟨base, 12⟩ : Region 32) → x ∉ (⟨p, 32⟩ : Region 32) →
      (Bossran.releaseSlot s base p).mem.bytes x = s.mem.bytes x := fun x hx hxp =>
    (setCount_frame hx).trans ((setFree_frame hx).trans
      (setNext_frame fun hx' => hxp (Region.mem_of_le hx' (by decide))))
  have hheader : ∀ x ∈ (⟨base, 12⟩ : Region 32), setNext s.mem.bytes p (pFree s.mem.bytes base) x =
      s.mem.bytes x := fun x hx =>
    setNext_frame fun hx' => header_disjoint hslot x hx (Region.mem_of_le hx' (by decide))
  have hcount : usedCount (setFree (setNext s.mem.bytes p (pFree s.mem.bytes base)) base p) base =
      usedCount s.mem.bytes base := usedCount_setFree.trans (usedCount_congr hheader)
  have hpush := hb.push hp
  rw [← hcount] at hpush
  refine ⟨h.update _ hpush rfl ?_ fun x hx => ?_, hframe⟩
  · rw [pNext_setCount, pNext_setFree]
    exact pNext_congr fun x hx => hheader x (Region.mem_of_le hx (by decide))
  · exact hframe x (fun hx' => hx (Region.mem_of_le hx' (by decide)))
      fun hx' => hx (slot_in_page hslot hx')

/-- `FreeBuffer` of a used slot is `freeSlot`. -/
theorem freeBuffer (h : Pool s bs) (hp : p ∈ allocated bs) :
    ∃ s', Bossran.freeBuffer s p = some s' ∧ Pool s' (freeSlot p bs) ∧
      Kept s.mem s'.mem bs (freeSlot p bs) := by
  have hperm := h.freeSlot_of_block hp
  have hnd := hperm.nodup_iff.mpr h.allocated_nodup
  have hne : ∀ q ∈ allocated (freeSlot p bs), q ≠ p := fun q hq heq =>
    (List.nodup_cons.mp hnd).1 (heq ▸ hq)
  obtain ⟨pre, base, free, used, post, rfl, hused, htarget, hpre⟩ := h.block_of_slot hp
  have hself : (⟨base, free, used⟩ : Block) ∈ pre ++ ⟨base, free, used⟩ :: post := mem_self
  have hslot := (h.blocks _ hself).used_mem hused
  have hbase : base ≠ 0 := h.chain.ne_null base (List.mem_map_of_mem (f := Block.base) hself)
  have hwalk := h.walk_block hpre
  obtain ⟨hpool, hframe⟩ := h.releaseSlot hused
  -- what the first part changes
  have hslots : ∀ q ∈ allocated (pre ++ ⟨base, free, used⟩ :: post), q ≠ p →
      ∀ x ∈ (⟨q, 32⟩ : Region 32), (Bossran.releaseSlot s base p).mem.bytes x = s.mem.bytes x :=
    fun q hq hqp x hx => hframe x (h.header_free (b := ⟨base, free, used⟩) hq hself hx)
      fun hx' => h.allocated_disjoint hq hp hqp x hx hx'
  have hout : ∀ x, pageOf x ≠ pageOf base →
      (Bossran.releaseSlot s base p).mem.bytes x = s.mem.bytes x := by
    intro x hpage
    refine hframe x (fun hx' => hpage ?_) fun hx' => hpage ?_
    · exact h.mem_header (b := ⟨base, free, used⟩) hself hx'
    · exact (h.blocks _ hself).aligned.mem_page.mp (slot_in_page hslot hx')
  have hrun : Bossran.freeBuffer s p = some (
      if usedCount (Bossran.releaseSlot s base p).mem.bytes base = 0 then
        Bossran.unlinkBlock (Bossran.releaseSlot s base p)
          ((0 :: pre.map Block.base).getLast (List.cons_ne_nil _ _)) base
      else Bossran.releaseSlot s base p) := by
    rw [Bossran.freeBuffer, htarget, hwalk, Option.map_some]
    dsimp only
    rw [if_neg hbase]
  refine ⟨_, hrun, ?_⟩
  have hzero : usedCount (Bossran.releaseSlot s base p).mem.bytes base = 0 ↔ used.erase p = [] :=
    hpool.usedCount_eq_zero (b := ⟨base, p :: free, used.erase p⟩) mem_self
  rw [freeSlot_append (fun c hc => htarget ▸ hpre c hc) htarget.symm] at hne ⊢
  dsimp only at hne ⊢
  by_cases hlast : used.erase p = []
  · -- the block goes
    rw [if_pos (hzero.mpr hlast)]
    rw [if_pos hlast] at hne ⊢
    refine ⟨hpool.unlinkBlock, ?_⟩
    obtain ⟨hlink, hprot, hfreed⟩ := hpool.unlinkBlock_frame
    constructor
    · intro q hq hq' x hx
      have hin : q ∈ allocated (pre ++ ⟨base, p :: free, used.erase p⟩ :: post) := by
        rw [allocated_append, allocated_cons, hlast]
        rwa [allocated_append] at hq'
      rw [hlink x fun c hc => hpool.header_free hin hc hx]
      exact hslots q hq (hne q hq') x hx
    · intro x hx hx'
      rw [hlink x fun c hc hxc => ?_]
      · exact hout x (hx ⟨base, free, used⟩ hself)
      · have hpage := hpool.mem_header hc hxc
        rw [List.mem_append, List.mem_cons, or_left_comm] at hc
        rcases hc with rfl | hc
        · exact hx ⟨base, free, used⟩ hself hpage
        · exact hx' c (List.mem_append.mpr hc) hpage
    · exact fun page hpage _ => hprot page (hpage ⟨base, free, used⟩ hself)
    · intro b hb hgone
      rw [List.mem_append, List.mem_cons, or_left_comm] at hb
      rcases hb with rfl | hb
      · exact hfreed
      · exact absurd rfl (hgone b (List.mem_append.mpr hb))
  · rw [if_neg fun h0 => hlast (hzero.mp h0)]
    rw [if_neg hlast] at hne ⊢
    refine ⟨hpool, fun q hq hq' => hslots q hq (hne q hq'),
      fun x hx _ => hout x (hx ⟨base, free, used⟩ hself),
      fun _ _ _ => rfl, fun b hb hgone => ?_⟩
    obtain ⟨d, hd, heq⟩ := replace_base (b := ⟨base, free, used⟩)
      ⟨base, p :: free, used.erase p⟩ rfl hb
    exact absurd heq (hgone d hd)

/-! ### Freeing the blocks -/

theorem freeBlocks_chain {m : AddressSpace} {bases : List DWORD} {fuel : Nat}
    (h : Chain (pNext m.bytes) 0 p bases) (hfuel : bases.length < fuel) :
    ∃ m', freeBlocks fuel m p = some m' ∧ m'.bytes = m.bytes ∧
      (∀ base ∈ bases, m'.protection (pageOf base) = 0) ∧
      ∀ page, (∀ base ∈ bases, page ≠ pageOf base) → m'.protection page = m.protection page := by
  induction bases generalizing m p fuel with
  | nil =>
    obtain ⟨fuel, rfl⟩ := Nat.exists_eq_succ_of_ne_zero (Nat.ne_of_gt hfuel)
    rw [freeBlocks, if_pos (show p = 0 from h)]
    exact ⟨m, rfl, rfl, nofun, fun _ _ => rfl⟩
  | cons b bases ih =>
    obtain ⟨rfl, hb, hrest⟩ := h
    obtain ⟨fuel, rfl⟩ := Nat.exists_eq_succ_of_ne_zero (Nat.ne_of_gt (Nat.zero_lt_of_lt hfuel))
    rw [freeBlocks, if_neg hb]
    obtain ⟨m', hm', hbytes, hfreed, hout⟩ :=
      ih (m := virtualFree m p) hrest (Nat.lt_of_succ_lt_succ hfuel)
    refine ⟨m', hm', hbytes, fun base hbase => ?_, fun page hpage => ?_⟩
    · by_cases hmem : ∃ c ∈ bases, pageOf base = pageOf c
      · obtain ⟨c, hc, heq⟩ := hmem
        rw [heq]
        exact hfreed c hc
      · rw [hout _ fun c hc heq => hmem ⟨c, hc, heq⟩]
        rcases List.mem_cons.mp hbase with rfl | hbase
        · exact Function.update_self ..
        · exact absurd ⟨base, hbase, rfl⟩ hmem
    · rw [hout page fun c hc => hpage c (List.mem_cons_of_mem _ hc)]
      exact Function.update_of_ne (hpage p (List.mem_cons_self ..)) ..

/-- `UninitializeBuffer` frees every block. -/
theorem uninitializeBuffer (h : Pool s bs) :
    ∃ s', Bossran.uninitializeBuffer s = some s' ∧ Pool s' [] ∧ Kept s.mem s'.mem bs [] := by
  obtain ⟨m', hm', hbytes, hfreed, hout⟩ :=
    freeBlocks_chain h.chain (by rw [List.length_map]; exact h.length_lt)
  refine ⟨⟨m', 0⟩, by rw [Bossran.uninitializeBuffer, hm']; rfl, Pool.nil, ?_⟩
  constructor
  · exact fun _ _ hq => nomatch hq
  · exact fun x _ _ => congrFun hbytes x
  · refine fun page hpage _ => hout page fun base hbase => ?_
    obtain ⟨b, hb, rfl⟩ := List.mem_map.mp hbase
    exact hpage b hb
  · exact fun b hb _ => hfreed b.base (List.mem_map_of_mem hb)

end Pool

/-! ## Blocks and the slots that were given out -/

/-- The page was in use in the memory `m₀`. -/
def Loaded (m₀ : AddressSpace) (page : Page) : Prop := m₀.protection page ≠ 0

/-- The blocks of the memory hold the slots `live`. The other pages are those in use in `m₀`, the
memory at the start. -/
structure Slots (m₀ : AddressSpace) (buf : BufferState) (live : List DWORD) (bs : List Block) :
    Prop where
  pool : Pool buf bs
  live : (allocated bs).Perm live
  used : ∀ b ∈ bs, b.used ≠ []
  fresh : ∀ b ∈ bs, ¬ Loaded m₀ (pageOf b.base)
  loaded : ∀ page, Loaded m₀ page → buf.mem.protection page ≠ 0
  vacant : ∀ page, ¬ Loaded m₀ page → (∀ b ∈ bs, page ≠ pageOf b.base) →
    buf.mem.protection page = 0

/-- What was in use in `m₀` is as it was in `m`. -/
structure SameLoaded (m₀ m m' : AddressSpace) : Prop where
  bytes : ∀ x, Loaded m₀ (pageOf x) → m'.bytes x = m.bytes x
  protection : ∀ page, Loaded m₀ page → m'.protection page = m.protection page

section Lists

variable {bs bs' : List Block} {b : Block} {base : Option DWORD} {p : DWORD}

theorem allocPool_perm (h : allocPool base bs = some (bs', p)) :
    (allocated bs').Perm (p :: allocated bs) ∧ (bs'.map Block.base = bs.map Block.base ∨
      ∃ pBlock, base = some pBlock ∧ bs'.map Block.base = pBlock :: bs.map Block.base) := by
  rw [allocPool, Option.or_eq_some_iff] at h
  obtain h | ⟨-, h⟩ := h
  · obtain ⟨hperm, hbase⟩ := allocSlot_perm h
    exact ⟨hperm, .inl hbase⟩
  · obtain ⟨pBlock, rfl, h⟩ := Option.bind_eq_some_iff.mp h
    obtain ⟨hperm, hbase⟩ := allocSlot_perm h
    exact ⟨hperm, .inr ⟨pBlock, rfl, hbase⟩⟩

/-- A slot is given out if there is room for a new block. -/
theorem allocPool_some (pBlock : DWORD) (bs : List Block) : allocPool (some pBlock) bs ≠ none := by
  obtain ⟨q, free, hfree⟩ : ∃ q free, (slots pBlock).reverse = q :: free := ⟨_, _, rfl⟩
  have hnew : allocSlot (freshBlock pBlock :: bs) = some (⟨pBlock, free, [q]⟩ :: bs, q) := by
    rw [freshBlock, hfree, allocSlot]
  intro h
  rw [allocPool, Option.or_eq_none_iff, Option.bind_some, hnew] at h
  cases h.2

theorem allocPool_used (h : allocPool base bs = some (bs', p)) (hu : ∀ b ∈ bs, b.used ≠ []) :
    ∀ b ∈ bs', b.used ≠ [] := by
  obtain hall | ⟨pre, b, q, free, used, post, rfl, hpre⟩ := free_cases bs
  · rw [allocPool, allocSlot_eq_none.mpr hall, Option.none_or] at h
    obtain ⟨pBlock, rfl, hslot⟩ := Option.bind_eq_some_iff.mp h
    obtain ⟨q, free, hfree⟩ : ∃ q free, (slots pBlock).reverse = q :: free := ⟨_, _, rfl⟩
    rw [freshBlock, hfree, allocSlot] at hslot
    obtain ⟨rfl, rfl⟩ := Prod.mk.inj (Option.some.inj hslot)
    intro b hb
    rcases List.mem_cons.mp hb with rfl | hb
    · exact List.cons_ne_nil _ _
    · exact hu b hb
  · rw [allocPool, allocSlot_append hpre, Option.some_or] at h
    obtain ⟨rfl, rfl⟩ := Prod.mk.inj (Option.some.inj h)
    intro c hc
    rw [List.mem_append, List.mem_cons, or_left_comm] at hc
    rcases hc with rfl | hc
    · exact List.cons_ne_nil _ _
    · refine hu c ?_
      rw [List.mem_append, List.mem_cons]
      exact hc.imp_right .inr

/-- A block that is left was there, and is in use. -/
theorem freeSlot_mem (hu : ∀ b ∈ bs, b.used ≠ []) (hb : b ∈ freeSlot p bs) :
    b.used ≠ [] ∧ ∃ c ∈ bs, c.base = b.base := by
  induction bs with
  | nil => cases hb
  | cons c bs ih =>
    rw [freeSlot] at hb
    split at hb
    · split at hb
      · exact ⟨hu b (List.mem_cons_of_mem _ hb), b, List.mem_cons_of_mem _ hb, rfl⟩
      · rename_i hlast
        rcases List.mem_cons.mp hb with rfl | hb
        · exact ⟨hlast, c, List.mem_cons_self .., rfl⟩
        · exact ⟨hu b (List.mem_cons_of_mem _ hb), b, List.mem_cons_of_mem _ hb, rfl⟩
    · rcases List.mem_cons.mp hb with rfl | hb
      · exact ⟨hu b (List.mem_cons_self ..), b, List.mem_cons_self .., rfl⟩
      · obtain ⟨hused, d, hd, hbase⟩ := ih (fun d hd => hu d (List.mem_cons_of_mem _ hd)) hb
        exact ⟨hused, d, List.mem_cons_of_mem _ hd, hbase⟩

end Lists

namespace Slots

variable {m₀ : AddressSpace} {buf : BufferState} {live : List DWORD} {bs bs' : List Block}
  {p : DWORD}

theorem init (m₀ : AddressSpace) : Slots m₀ ⟨m₀, 0⟩ [] [] where
  pool := Pool.nil
  live := List.Perm.refl _
  used := nofun
  fresh := nofun
  loaded _ h := h
  vacant _ h _ := not_not.mp h

theorem mem_live (h : Slots m₀ buf live bs) : p ∈ live ↔ p ∈ allocated bs := h.live.mem_iff.symm

theorem nodup (h : Slots m₀ buf live bs) : live.Nodup :=
  h.live.nodup_iff.mp h.pool.allocated_nodup

theorem ne_zero (h : Slots m₀ buf live bs) (hp : p ∈ live) : p ≠ 0 :=
  h.pool.slot_ne_zero (h.mem_live.mp hp)

/-- A slot lies apart from what was in use. -/
theorem not_loaded (h : Slots m₀ buf live bs) (hp : p ∈ live) {x : DWORD}
    (hx : x ∈ (⟨p, 32⟩ : Region 32)) : ¬ Loaded m₀ (pageOf x) := by
  obtain ⟨b, hb, hpage⟩ := h.pool.pageOf_slot (h.mem_live.mp hp) hx
  rw [hpage]
  exact h.fresh b hb

/-- A block has the page of a slot. -/
theorem page_of_block (h : Slots m₀ buf live bs) {b : Block} (hb : b ∈ bs) :
    ∃ p ∈ live, pageOf p = pageOf b.base := by
  obtain ⟨p, hp⟩ := List.exists_mem_of_ne_nil _ (h.used b hb)
  have hold := h.pool.blocks b hb
  have hself : p ∈ (⟨p, 32⟩ : Region 32) := by simp [Region.mem_iff]
  exact ⟨p, h.mem_live.mpr (Pool.mem_allocated.mpr ⟨b, hb, hp⟩),
    hold.aligned.mem_page.mp (slot_in_page (hold.used_mem hp) hself)⟩

theorem exec (h : Slots m₀ buf live bs) (hp : p ∈ live) {x : DWORD}
    (hx : x ∈ (⟨p, 32⟩ : Region 32)) :
    buf.mem.protection (pageOf x) = PAGE_EXECUTE_READWRITE := by
  obtain ⟨b, hb, heq⟩ := h.pool.pageOf_slot (h.mem_live.mp hp) hx
  rw [heq]
  exact h.pool.exec b hb

theorem same_loaded (h : Slots m₀ buf live bs) {mem : AddressSpace}
    (hfresh : ∀ b ∈ bs', ¬ Loaded m₀ (pageOf b.base)) (hk : Kept buf.mem mem bs bs') :
    SameLoaded m₀ buf.mem mem where
  bytes x hx := hk.outside x (fun b hb heq => h.fresh b hb (heq ▸ hx))
    fun b hb heq => hfresh b hb (heq ▸ hx)
  protection page hpage := hk.protection page (fun b hb heq => h.fresh b hb (heq ▸ hpage))
    fun b hb heq => hfresh b hb (heq ▸ hpage)

/-- After an operation of the allocator. -/
theorem kept (h : Slots m₀ buf live bs) {buf' : BufferState} {live' : List DWORD}
    (hpool : Pool buf' bs') (hk : Kept buf.mem buf'.mem bs bs') (hlive : (allocated bs').Perm live')
    (hused : ∀ b ∈ bs', b.used ≠ []) (hfresh : ∀ b ∈ bs', ¬ Loaded m₀ (pageOf b.base)) :
    Slots m₀ buf' live' bs' where
  pool := hpool
  live := hlive
  used := hused
  fresh := hfresh
  loaded page hpage := by
    rw [(h.same_loaded hfresh hk).protection page hpage]
    exact h.loaded page hpage
  vacant page hpage hnew := by
    by_cases hold : ∃ b ∈ bs, page = pageOf b.base
    · obtain ⟨b, hb, rfl⟩ := hold
      exact hk.freed b hb hnew
    · have hnot : ∀ b ∈ bs, page ≠ pageOf b.base := fun b hb heq => hold ⟨b, hb, heq⟩
      exact (hk.protection page hnot hnew).trans (h.vacant page hpage hnot)

/-- What `AllocateBuffer` does: it fails, or gives out a new slot. -/
theorem allocate (h : Slots m₀ buf live bs) {base : Option DWORD}
    (hv : ∀ b, base = some b → Vacant buf.mem b) :
    (allocateBuffer buf base = some (buf, 0) ∧ base = none) ∨
    ∃ buf' p bs', allocateBuffer buf base = some (buf', p) ∧ Slots m₀ buf' (p :: live) bs' ∧
      Kept buf.mem buf'.mem bs bs' := by
  obtain ⟨buf', p, halloc, ⟨hnone, rfl, rfl⟩ | ⟨bs', hbs', hpool, hk⟩⟩ := h.pool.allocateBuffer hv
  · refine .inl ⟨halloc, ?_⟩
    cases base with
    | none => rfl
    | some pBlock => exact absurd hnone (allocPool_some pBlock bs)
  · obtain ⟨hperm, hbases⟩ := allocPool_perm hbs'
    refine .inr ⟨buf', p, bs', halloc, h.kept hpool hk (hperm.trans (h.live.cons p))
      (allocPool_used hbs' h.used) fun b hb => ?_, hk⟩
    have hbase := List.mem_map_of_mem (f := Block.base) hb
    have hold : b.base ∈ bs.map Block.base → ¬ Loaded m₀ (pageOf b.base) := by
      intro hmem
      obtain ⟨c, hc, hcb⟩ := List.mem_map.mp hmem
      rw [← hcb]
      exact h.fresh c hc
    obtain heq | ⟨pBlock, rfl, heq⟩ := hbases
    · exact hold (heq ▸ hbase)
    · rw [heq] at hbase
      rcases List.mem_cons.mp hbase with hnew | hbase
      · rw [hnew]
        exact fun hl => h.loaded _ hl (hv pBlock rfl).free
      · exact hold hbase

/-- `FreeBuffer` of a slot that was given out. -/
theorem free (h : Slots m₀ buf live bs) (hp : p ∈ live) : ∃ buf' bs',
    freeBuffer buf p = some buf' ∧ Slots m₀ buf' (live.erase p) bs' ∧
      Kept buf.mem buf'.mem bs bs' := by
  have hmem := h.mem_live.mp hp
  obtain ⟨buf', hfree, hpool, hk⟩ := h.pool.freeBuffer hmem
  have hperm := h.pool.freeSlot_of_block hmem
  refine ⟨buf', _, hfree, h.kept hpool hk ?_ (fun b hb => (freeSlot_mem h.used hb).1)
    fun b hb => ?_, hk⟩
  · exact (List.cons_perm_iff_perm_erase.mp (hperm.trans h.live)).2
  · obtain ⟨-, c, hc, hbase⟩ := freeSlot_mem h.used hb
    rw [← hbase]
    exact h.fresh c hc

theorem freeAll (h : Slots m₀ buf live bs) : ∃ buf',
    uninitializeBuffer buf = some buf' ∧ Slots m₀ buf' [] [] ∧ Kept buf.mem buf'.mem bs [] := by
  obtain ⟨buf', hun, hpool, hk⟩ := h.pool.uninitializeBuffer
  exact ⟨buf', hun, h.kept hpool hk (List.Perm.refl _) nofun nofun, hk⟩

/-- What is written to a slot. -/
theorem write (h : Slots m₀ buf live bs) (hp : p ∈ live) {bytes : DWORD → BYTE}
    (hm : ∀ x, x ∉ (⟨p, 32⟩ : Region 32) → bytes x = buf.mem.bytes x) :
    Slots m₀ { buf with mem.bytes := bytes } live bs where
  pool := h.pool.write (h.mem_live.mp hp) hm
  live := h.live
  used := h.used
  fresh := h.fresh
  loaded := h.loaded
  vacant := h.vacant

/-- What is written to the pages that were in use. -/
theorem patch (h : Slots m₀ buf live bs) {mem : AddressSpace}
    (hbytes : ∀ x, ¬ Loaded m₀ (pageOf x) → mem.bytes x = buf.mem.bytes x)
    (hprot : ∀ page, ¬ Loaded m₀ page → mem.protection page = buf.mem.protection page)
    (hloaded : ∀ page, Loaded m₀ page → mem.protection page ≠ 0) :
    Slots m₀ { buf with mem := mem } live bs where
  pool := by
    refine h.pool.congr (fun b hb x hx => hbytes x ?_) (fun b hb p hp x hx => hbytes x ?_)
      fun b hb => hprot _ (h.fresh b hb)
    · rw [h.pool.mem_header hb hx]
      exact h.fresh b hb
    · have hold := h.pool.blocks b hb
      rw [hold.aligned.mem_page.mp (slot_in_page (hold.free_mem hp) hx)]
      exact h.fresh b hb
  live := h.live
  used := h.used
  fresh := h.fresh
  loaded := hloaded
  vacant page hpage hnew := (hprot page hpage).trans (h.vacant page hpage hnew)

end Slots

/-! ## Runs -/

/-- The allocator and the slots that it has given out. -/
structure SlotState where
  buf : BufferState
  live : List DWORD

inductive SlotAct where
  /-- `AllocateBuffer`, with what `VirtualAlloc` would return. -/
  | allocate (base : Option DWORD)
  /-- `FreeBuffer` of a slot that was given out. -/
  | free (pBuffer : DWORD)
  /-- Its owner writes to a slot. -/
  | write (pBuffer : DWORD) (bs : List BYTE)
  /-- `UninitializeBuffer` -/
  | freeAll

def slotStep (s : SlotState) : SlotAct → Option SlotState
  | .allocate base => (allocateBuffer s.buf base).map fun r =>
      if r.2 = 0 then ⟨r.1, s.live⟩ else ⟨r.1, r.2 :: s.live⟩
  | .free pBuffer =>
    if s.live.contains pBuffer then
      (freeBuffer s.buf pBuffer).map fun buf => ⟨buf, s.live.erase pBuffer⟩
    else none
  | .write pBuffer bs =>
    if s.live.contains pBuffer ∧ bs.length ≤ 32 then
      some { s with buf.mem.bytes := store s.buf.mem.bytes pBuffer bs }
    else none
  | .freeAll => (uninitializeBuffer s.buf).map fun buf => ⟨buf, []⟩

/-- The allocator in the process with the memory `m₀`. -/
def slotMachine (m₀ : AddressSpace) : Transition.Machine SlotState SlotAct where
  init s := s = ⟨⟨m₀, 0⟩, []⟩
  step := slotStep

/-- `VirtualAlloc` returns pages that are not in use. -/
def slotOk (s : SlotState) : SlotAct → Prop
  | .allocate base => ∀ b, base = some b → Vacant s.buf.mem b
  | _ => True

instance (s : SlotState) : (a : SlotAct) → Decidable (slotOk s a)
  | .allocate base => decidableVacant s.buf.mem base
  | .free _ | .write _ _ | .freeAll => isTrue trivial

/-- The owner of a slot uses it while it has it. -/
def slotReady (s : SlotState) : SlotAct → Prop
  | .free pBuffer => pBuffer ∈ s.live
  | .write pBuffer bs => pBuffer ∈ s.live ∧ bs.length ≤ 32
  | _ => True

/-- The action takes the slot from its owner, or writes to it. -/
def SlotAct.touches (p : DWORD) : SlotAct → Prop
  | .free pBuffer => pBuffer = p
  | .write pBuffer _ => pBuffer = p
  | .freeAll => True
  | .allocate _ => False

/-- The blocks hold the slots that were given out, and what was in use is as it was. -/
structure Holding (m₀ : AddressSpace) (s : SlotState) (bs : List Block) : Prop where
  slots : Slots m₀ s.buf s.live bs
  same : SameLoaded m₀ m₀ s.buf.mem

theorem SameLoaded.trans {m₀ m₁ m₂ m₃ : AddressSpace} (h : SameLoaded m₀ m₁ m₂)
    (h' : SameLoaded m₀ m₂ m₃) : SameLoaded m₀ m₁ m₃ where
  bytes x hx := (h'.bytes x hx).trans (h.bytes x hx)
  protection page hpage := (h'.protection page hpage).trans (h.protection page hpage)

section Runs

variable {m₀ : AddressSpace} {tr : List SlotAct} {s s' : SlotState} {bs : List Block} {a : SlotAct}

/-- Every call ends, and leaves the slots of the others as they are. -/
theorem Holding.step (h : Holding m₀ s bs) (hok : slotOk s a) (hready : slotReady s a) :
    ∃ s' bs', slotStep s a = some s' ∧ Holding m₀ s' bs' ∧
      ∀ p ∈ s.live, ¬ a.touches p → p ∈ s'.live ∧
        ∀ x ∈ (⟨p, 32⟩ : Region 32), s'.buf.mem.bytes x = s.buf.mem.bytes x := by
  obtain ⟨hslots, hsame⟩ := h
  cases a with
  | allocate base =>
    obtain ⟨halloc, -⟩ | ⟨buf, p, bs', halloc, hnew, hk⟩ := hslots.allocate hok
    · exact ⟨s, bs, by rw [slotStep, halloc]; rfl, ⟨hslots, hsame⟩, fun p hp _ =>
        ⟨hp, fun _ _ => rfl⟩⟩
    · have hp : p ≠ 0 := hnew.ne_zero (List.mem_cons_self ..)
      refine ⟨⟨buf, p :: s.live⟩, bs', ?_,
        ⟨hnew, hsame.trans (hslots.same_loaded hnew.fresh hk)⟩, fun q hq _ => ?_⟩
      · rw [slotStep, halloc, Option.map_some, if_neg hp]
      · have hq' : q ∈ p :: s.live := List.mem_cons_of_mem _ hq
        exact ⟨hq', hk.slots q (hslots.mem_live.mp hq) (hnew.mem_live.mp hq')⟩
  | free p =>
    have hp : p ∈ s.live := hready
    obtain ⟨buf, bs', hfree, hnew, hk⟩ := hslots.free hp
    refine ⟨⟨buf, s.live.erase p⟩, bs', ?_,
      ⟨hnew, hsame.trans (hslots.same_loaded hnew.fresh hk)⟩, fun q hq hqp => ?_⟩
    · rw [slotStep, if_pos (List.contains_iff_mem.mpr hp), hfree]
      rfl
    · have hq' : q ∈ s.live.erase p := (List.mem_erase_of_ne (Ne.symm hqp)).mpr hq
      exact ⟨hq', hk.slots q (hslots.mem_live.mp hq) (hnew.mem_live.mp hq')⟩
  | write p data =>
    obtain ⟨hp, hlen⟩ : p ∈ s.live ∧ data.length ≤ 32 := hready
    have hframe : ∀ x, x ∉ (⟨p, 32⟩ : Region 32) → store s.buf.mem.bytes p data x =
        s.buf.mem.bytes x := fun x hx =>
      store_of_notMem (by omega) fun hx' => hx (Region.mem_of_le hx' hlen)
    have hstep : slotStep s (.write p data) =
        some { s with buf.mem.bytes := store s.buf.mem.bytes p data } := by
      rw [slotStep, if_pos ⟨List.contains_iff_mem.mpr hp, hlen⟩]
    refine ⟨_, bs, hstep, ⟨hslots.write hp hframe, hsame.trans ⟨fun x hx => ?_, fun _ _ => rfl⟩⟩,
      fun q hq hqp => ⟨hq, fun x hx => hframe x fun hx' => ?_⟩⟩
    · exact hframe x fun hx' => hslots.not_loaded hp hx' hx
    · exact hslots.pool.allocated_disjoint (hslots.mem_live.mp hp) (hslots.mem_live.mp hq) hqp x
        hx' hx
  | freeAll =>
    obtain ⟨buf, hun, hnew, hk⟩ := hslots.freeAll
    exact ⟨⟨buf, []⟩, [], by rw [slotStep, hun]; rfl,
      ⟨hnew, hsame.trans (hslots.same_loaded hnew.fresh hk)⟩, fun p _ hp => absurd trivial hp⟩

theorem slotReady_of_step (h : slotStep s a = some s') : slotReady s a := by
  cases a with
  | allocate _ | freeAll => trivial
  | free p =>
    rw [slotStep] at h
    split at h
    · exact List.contains_iff_mem.mp ‹_›
    · cases h
  | write p data =>
    rw [slotStep] at h
    split at h
    · rename_i hready
      exact ⟨List.contains_iff_mem.mp hready.1, hready.2⟩
    · cases h

theorem holding_of_run (h : (slotMachine m₀).RunWhere slotOk tr s) : ∃ bs, Holding m₀ s bs := by
  refine h.invariant (I := fun _ s => ∃ bs, Holding m₀ s bs) ?_ ?_
  · rintro s rfl
    exact ⟨[], Slots.init m₀, fun _ _ => rfl, fun _ _ => rfl⟩
  · rintro tr s a s' - ⟨bs, hI⟩ hok hs
    obtain ⟨t, bs', ht, hI', -⟩ := hI.step hok (slotReady_of_step hs)
    obtain rfl := Option.some.inj (hs.symm.trans ht)
    exact ⟨bs', hI'⟩

/-- In every run the slots that are given out do not overlap, and can be executed. No page is held
for anything else, and what was in use at the start is as it was. -/
theorem allocator_run (h : (slotMachine m₀).RunWhere slotOk tr s) :
    s.live.Nodup ∧
    (∀ p ∈ s.live, ∀ q ∈ s.live, p ≠ q → Region.Disjoint (w := 32) ⟨p, 32⟩ ⟨q, 32⟩) ∧
    (∀ p ∈ s.live, ∀ x ∈ (⟨p, 32⟩ : Region 32), ¬ Loaded m₀ (pageOf x) ∧
      s.buf.mem.protection (pageOf x) = PAGE_EXECUTE_READWRITE) ∧
    (∀ page, s.buf.mem.protection page ≠ m₀.protection page → ∃ p ∈ s.live, pageOf p = page) ∧
    ∀ x, Loaded m₀ (pageOf x) → s.buf.mem.bytes x = m₀.bytes x := by
  obtain ⟨bs, hslots, hsame⟩ := holding_of_run h
  refine ⟨hslots.nodup, fun p hp q hq hne => ?_,
    fun p hp x hx => ⟨hslots.not_loaded hp hx, hslots.exec hp hx⟩, fun page hpage => ?_,
    hsame.bytes⟩
  · exact hslots.pool.allocated_disjoint (hslots.mem_live.mp hp) (hslots.mem_live.mp hq) hne
  · have hnew : ¬ Loaded m₀ page := fun hl => hpage (hsame.protection page hl)
    by_cases hblock : ∃ b ∈ bs, page = pageOf b.base
    · obtain ⟨b, hb, rfl⟩ := hblock
      exact hslots.page_of_block hb
    · refine absurd ?_ hpage
      rw [hslots.vacant page hnew fun b hb heq => hblock ⟨b, hb, heq⟩]
      exact (not_not.mp hnew).symm

/-- In every run each call ends: no loop over the blocks or the slots goes on for ever. -/
theorem allocator_ends (h : (slotMachine m₀).RunWhere slotOk tr s) (hok : slotOk s a)
    (hready : slotReady s a) : ∃ s', slotStep s a = some s' := by
  obtain ⟨bs, hI⟩ := holding_of_run h
  obtain ⟨s', -, hs, -⟩ := hI.step hok hready
  exact ⟨s', hs⟩

/-- What the owner of a slot writes stays there until the owner writes again or gives it back. -/
theorem slot_keeps {p : DWORD} {data : List BYTE} (as : List SlotAct)
    (h : (slotMachine m₀).RunWhere slotOk (tr ++ .write p data :: as) s)
    (hquiet : ∀ a ∈ as, ¬ a.touches p) : p ∈ s.live ∧ Reads s.buf.mem.bytes p data := by
  suffices hall : p ∈ s.live ∧ data.length ≤ 32 ∧ Reads s.buf.mem.bytes p data from
    ⟨hall.1, hall.2.2⟩
  induction as using List.reverseRecOn generalizing s with
  | nil =>
    obtain ⟨s₀, -, -, hs⟩ := h.last
    have hs' : slotStep s₀ (.write p data) = some s := hs
    have hready := slotReady_of_step hs'
    have hlen : data.length ≤ 32 := hready.2
    rw [slotStep, if_pos ⟨List.contains_iff_mem.mpr hready.1, hlen⟩] at hs'
    obtain rfl := Option.some.inj hs'
    exact ⟨hready.1, hlen, store_reads _ _ (by omega)⟩
  | append_singleton as a ih =>
    rw [← List.cons_append, ← List.append_assoc] at h
    obtain ⟨s₀, hr, hok, hs⟩ := h.last
    obtain ⟨hlive, hlen, hreads⟩ := ih hr fun b hb => hquiet b (List.mem_append_left _ hb)
    obtain ⟨bs, hI⟩ := holding_of_run hr
    obtain ⟨t, -, ht, -, hkeep⟩ := hI.step hok (slotReady_of_step hs)
    obtain rfl := Option.some.inj (ht.symm.trans hs)
    obtain ⟨hlive', hsame⟩ := hkeep p hlive (hquiet a (by simp))
    exact ⟨hlive', hlen, hreads.congr fun x hx => hsame x (Region.mem_of_le hx hlen)⟩

/-- A process with two pages in use. -/
def twoPages : AddressSpace where
  bytes x := x.setWidth 8
  protection page := if page = 0x400 ∨ page = 0x401 then 0x20 else 0

/-- The owner of the first slot writes to it. Later a third slot is given out, and the second is
written to and given back. -/
def slotCalls : List SlotAct :=
  [.allocate (some 0x10000), .allocate none, .write 0x10FE0 [0xE9, 0xFB], .allocate none,
    .write 0x10FC0 [0x90], .free 0x10FC0]

theorem slotCalls_run : ∃ s, (slotMachine twoPages).RunWhere slotOk slotCalls s ∧
    s.live = [0x10FA0, 0x10FE0] := by
  have hlive : ((slotMachine twoPages).execWhere slotOk ⟨⟨twoPages, 0⟩, []⟩ slotCalls).map
      SlotState.live = some [0x10FA0, 0x10FE0] := by
    decide +kernel
  obtain ⟨s, hs, hlive⟩ := Option.map_eq_some_iff.mp hlive
  exact ⟨s, Transition.Machine.execWhere_run rfl hs, hlive⟩

theorem allocator_run_several : ∃ s : SlotState, s.live = [0x10FA0, 0x10FE0] ∧
    Region.Disjoint (w := 32) ⟨0x10FA0, 32⟩ ⟨0x10FE0, 32⟩ ∧
    s.buf.mem.protection (pageOf 0x10FE0) = PAGE_EXECUTE_READWRITE ∧
    s.buf.mem.bytes 0x401234 = 0x34 := by
  obtain ⟨s, hr, hlive⟩ := slotCalls_run
  obtain ⟨-, hdisjoint, hexec, -, hbytes⟩ := allocator_run hr
  rw [hlive] at hdisjoint hexec
  refine ⟨s, hlive, hdisjoint _ (by decide) _ (by decide) (by decide),
    (hexec 0x10FE0 (by decide) 0x10FE0 (by decide)).2, ?_⟩
  exact hbytes 0x401234 (show twoPages.protection (pageOf 0x401234) ≠ 0 by decide)

theorem allocator_ends_several : ∃ s s' : SlotState, s.live = [0x10FA0, 0x10FE0] ∧
    slotStep s (.free 0x10FE0) = some s' := by
  obtain ⟨s, hr, hlive⟩ := slotCalls_run
  obtain ⟨s', hs⟩ := allocator_ends (a := .free 0x10FE0) hr trivial
    (show 0x10FE0 ∈ s.live from hlive ▸ by decide)
  exact ⟨s, s', hlive, hs⟩

theorem slot_keeps_several : ∃ s : SlotState, s.live = [0x10FA0, 0x10FE0] ∧
    Reads s.buf.mem.bytes 0x10FE0 [0xE9, 0xFB] := by
  obtain ⟨s, hr, hlive⟩ := slotCalls_run
  have hr' : (slotMachine twoPages).RunWhere slotOk
      ([.allocate (some 0x10000), .allocate none] ++ .write 0x10FE0 [0xE9, 0xFB] ::
        [.allocate none, .write 0x10FC0 [0x90], .free 0x10FC0]) s := hr
  exact ⟨s, hlive, (slot_keeps _ hr' (by simp [SlotAct.touches])).2⟩

end Runs

end Bossran
