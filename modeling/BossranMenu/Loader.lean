import BossranMenu.AddressSpace
import BossranMenu.Lib.Ring

/-!
# Hiding the module from the loader (`HideModule` in `dllmain.cpp`)

The loader threads three circular lists through its entries: every entry has a `LIST_ENTRY` for
each list, one behind the other, and the three heads lie in the same way in `MY_PEB_LDR_DATA`.
`hideModule` walks the load-order list and unlinks the first entry of the module from all three.
Its loop takes the head for an entry: it reads a `DllBase` behind the heads, where the declared
structure has ended.

* `unlink_spec`: what unlinking one `LIST_ENTRY` does to the links. `Rings.unlink_entry`: it takes
  one entry out of one of the three rings. `LoaderLists.erase`: the three unlinkings of an entry.
* `LoaderLists.hideModule_found`: the loop ends at the first entry of the module.
* `hidesModule_iff`: if the module has no entry, the word behind the heads decides.
-/

namespace Bossran

open Memory Ring

/-- The three lists, in the order of their links in an entry. -/
inductive LoaderList where
  | inLoadOrder | inMemoryOrder | inInitializationOrder
  deriving DecidableEq

/-- The distance of a `LIST_ENTRY` above the base of an entry, or above the first head. -/
def LoaderList.offset : LoaderList → Nat
  | .inLoadOrder => 0
  | .inMemoryOrder => 8
  | .inInitializationOrder => 16

theorem LoaderList.offset_le (k : LoaderList) : k.offset + 8 ≤ 24 := by cases k <;> decide

/-- The `LIST_ENTRY` of a list in the entry at `base`. -/
def LoaderList.links (k : LoaderList) (base : DWORD) : DWORD := base + BitVec.ofNat 32 k.offset

variable (m : DWORD → BYTE)

/-- `Flink` of a `LIST_ENTRY`. -/
def flink (links : DWORD) : DWORD := readWord m links

/-- `Blink` of a `LIST_ENTRY`. -/
def blink (links : DWORD) : DWORD := readWord m (links + BitVec.ofNat 32 4)

/-- `DllBase` of the entry at `base`. -/
def dllBase (base : DWORD) : DWORD := readWord m (base + BitVec.ofNat 32 24)

/-- `links.Blink->Flink = links.Flink; links.Flink->Blink = links.Blink;` -/
def unlink (links : DWORD) : DWORD → BYTE :=
  let m := store m (blink m links) (wordBytes (flink m links))
  store m (flink m links + BitVec.ofNat 32 4) (wordBytes (blink m links))

/-- The body of the loop for the entry that is found. -/
def unlinkModule (current : DWORD) : DWORD → BYTE :=
  let m := unlink m (LoaderList.inLoadOrder.links current)
  let m := unlink m (LoaderList.inMemoryOrder.links current)
  unlink m (LoaderList.inInitializationOrder.links current)

/-- At most `fuel` rounds of the loop at `current`. -/
def hideModuleLoop (hModule : DWORD) : Nat → DWORD → Option (DWORD → BYTE)
  | 0, _ => none
  | fuel + 1, current =>
    if dllBase m current ≠ 0 then
      if dllBase m current = hModule then some (unlinkModule m current)
      else hideModuleLoop hModule fuel (flink m (LoaderList.inLoadOrder.links current))
    else some m

/-- The first head in `MY_PEB_LDR_DATA`. -/
def loaderHeads (ldr : DWORD) : DWORD := ldr + 0xC

/-- `HideModule`, unless its loop still runs after `fuel` rounds. -/
def hideModule (ldr hModule : DWORD) (fuel : Nat) : Option (DWORD → BYTE) :=
  hideModuleLoop m hModule fuel (flink m (LoaderList.inLoadOrder.links (loaderHeads ldr)))

variable {m} {m' : DWORD → BYTE} {heads hModule : DWORD} {entries : List DWORD}
  {lists : LoaderList → List DWORD}

/-- The heads and the entries lie apart; an entry is taken up to its `DllBase`. -/
structure Apart (heads : DWORD) (entries : List DWORD) : Prop where
  heads : ∀ e ∈ entries, Region.Disjoint (w := 32) ⟨heads, 24⟩ ⟨e, 28⟩
  entries : entries.Pairwise fun e e' => Region.Disjoint (w := 32) ⟨e, 28⟩ ⟨e', 28⟩

/-- Each of the three lists is a ring with its head. -/
def Rings (m : DWORD → BYTE) (heads : DWORD) (lists : LoaderList → List DWORD) : Prop :=
  ∀ k : LoaderList, IsRing (flink m) (blink m) (k.links heads) ((lists k).map k.links)

/-- Three rings through the same entries, none of which has `DllBase` null. Nothing is said about
the word behind the heads. -/
structure LoaderLists (m : DWORD → BYTE) (heads : DWORD) (lists : LoaderList → List DWORD) :
    Prop where
  apart : Apart heads (lists .inLoadOrder)
  perm : ∀ k, (lists k).Perm (lists .inLoadOrder)
  rings : Rings m heads lists
  modules : ∀ e ∈ lists .inLoadOrder, dllBase m e ≠ 0

/-! ## The layout -/

namespace Apart

theorem base (h : Apart heads entries) {b b' : DWORD} (hb : b ∈ heads :: entries)
    (hb' : b' ∈ entries) (hne : b ≠ b') : Region.Disjoint (w := 32) ⟨b, 24⟩ ⟨b', 28⟩ := by
  rcases List.mem_cons.mp hb with rfl | hb
  · exact h.heads b' hb'
  · have hsymm : Std.Symm fun e e' : DWORD => Region.Disjoint (w := 32) ⟨e, 28⟩ ⟨e', 28⟩ :=
      ⟨fun _ _ hd => hd.symm⟩
    have hd := h.entries.forall hb hb' hne
    exact fun x hx => hd x (Region.mem_of_le hx (by omega))

theorem nodup (h : Apart heads entries) : (heads :: entries).Nodup := by
  have hself : ∀ (b : DWORD) (n : Nat), 0 < n → ¬ Region.Disjoint (w := 32) ⟨b, n⟩ ⟨b, 28⟩ := by
    intro b n hn hd
    exact hd b (by simpa [Region.mem_iff] using hn) (by simp [Region.mem_iff])
  refine List.nodup_cons.mpr ⟨fun hh => hself heads 24 (by omega) (h.heads heads hh), ?_⟩
  refine h.entries.imp ?_
  rintro e _ hd rfl
  exact hself e 28 (by omega) hd

/-- Two `LIST_ENTRY`s lie apart, unless they are the same. -/
theorem links (h : Apart heads entries) {b b' : DWORD} (hb : b ∈ heads :: entries)
    (hb' : b' ∈ heads :: entries) {k k' : LoaderList} (hne : b ≠ b' ∨ k ≠ k') :
    Region.Disjoint (w := 32) ⟨k.links b, 8⟩ ⟨k'.links b', 8⟩ := by
  by_cases hbb : b = b'
  · subst hbb
    have hkk := hne.resolve_left (fun hn => hn rfl)
    have hoff : k.offset + 8 ≤ k'.offset ∨ k'.offset + 8 ≤ k.offset := by
      cases k <;> cases k' <;> first | exact absurd rfl hkk | decide
    rcases hoff with hoff | hoff
    · exact Region.disjoint_parts b hoff (by have := k'.offset_le; omega)
    · exact (Region.disjoint_parts b hoff (by have := k.offset_le; omega)).symm
  · have hd : Region.Disjoint (w := 32) ⟨b, 24⟩ ⟨b', 24⟩ := by
      rcases List.mem_cons.mp hb' with rfl | hb'
      · have hb := (List.mem_cons.mp hb).resolve_left hbb
        have hd := (h.base (List.mem_cons_self ..) hb (Ne.symm hbb)).symm
        exact fun x hx => hd x (Region.mem_of_le hx (by omega))
      · exact fun x hx hx' => h.base hb hb' hbb x hx (Region.mem_of_le hx' (by omega))
    exact hd.parts k.offset_le k'.offset_le

/-- The `DllBase` of an entry lies apart from all links. -/
theorem dllBase (h : Apart heads entries) {b e : DWORD} (hb : b ∈ heads :: entries)
    (he : e ∈ entries) :
    Region.Disjoint (w := 32) ⟨e + BitVec.ofNat 32 24, 4⟩ ⟨b, 24⟩ := by
  by_cases hbe : b = e
  · subst hbe
    exact (Region.disjoint_rest b (Nat.le_refl 24) (by omega)).symm
  · exact fun x hx hx' => h.base hb he hbe x hx' (Region.mem_of_part hx (by omega))

end Apart

/-! ## Unlinking -/

/-- Link cells that lie apart from each other. -/
def Cells (U : Set DWORD) : Prop :=
  ∀ c ∈ U, ∀ c' ∈ U, c ≠ c' → Region.Disjoint (w := 32) ⟨c, 8⟩ ⟨c', 8⟩

section

variable {U : Set DWORD} {c u : DWORD} (hU : Cells U)

include hU

theorem flink_store_flink (hc : c ∈ U) (hu : u ∈ U) (v : DWORD) :
    flink (store m c (wordBytes v)) u = if u = c then v else flink m u := by
  split
  · rename_i huc
    rw [huc, flink, readWord_store]
  · rename_i huc
    refine readWord_store_of_disjoint m v fun x hx hx' => ?_
    exact hU u hu c hc huc x (Region.mem_of_le hx (by omega)) (Region.mem_of_le hx' (by omega))

theorem blink_store_blink (hc : c ∈ U) (hu : u ∈ U) (v : DWORD) :
    blink (store m (c + BitVec.ofNat 32 4) (wordBytes v)) u = if u = c then v else blink m u := by
  split
  · rename_i huc
    rw [huc, blink, readWord_store]
  · rename_i huc
    refine readWord_store_of_disjoint m v fun x hx hx' => ?_
    exact hU u hu c hc huc x (Region.mem_of_part hx (by omega)) (Region.mem_of_part hx' (by omega))

/-- The two words of a link cell, and those of different cells, lie apart. -/
theorem flink_apart_blink (hc : c ∈ U) (hu : u ∈ U) :
    Region.Disjoint (w := 32) ⟨u, 4⟩ ⟨c + BitVec.ofNat 32 4, 4⟩ := by
  by_cases huc : u = c
  · subst huc
    exact Region.disjoint_rest u (Nat.le_refl 4) (by omega)
  · intro x hx hx'
    exact hU u hu c hc huc x (Region.mem_of_le hx (by omega)) (Region.mem_of_part hx' (by omega))

theorem blink_store_flink (hc : c ∈ U) (hu : u ∈ U) (v : DWORD) :
    blink (store m c (wordBytes v)) u = blink m u :=
  readWord_store_of_disjoint m v (flink_apart_blink hU hu hc).symm

theorem flink_store_blink (hc : c ∈ U) (hu : u ∈ U) (v : DWORD) :
    flink (store m (c + BitVec.ofNat 32 4) (wordBytes v)) u = flink m u :=
  readWord_store_of_disjoint m v (flink_apart_blink hU hc hu)

/-- Unlinking a cell links its two neighbours to each other, and changes no other link and nothing
outside the neighbours. -/
theorem unlink_spec (hc : c ∈ U) (hb : blink m c ∈ U) (hf : flink m c ∈ U)
    (hbc : blink m c ≠ c) :
    (∀ u ∈ U, flink (unlink m c) u = if u = blink m c then flink m c else flink m u) ∧
    (∀ u ∈ U, blink (unlink m c) u = if u = flink m c then blink m c else blink m u) ∧
    ∀ x, x ∉ (⟨blink m c, 8⟩ : Region 32) → x ∉ (⟨flink m c, 8⟩ : Region 32) →
      unlink m c x = m x := by
  have hflink : flink (store m (blink m c) (wordBytes (flink m c))) c = flink m c := by
    rw [flink_store_flink hU hb hc, if_neg hbc.symm]
  have hblink : blink (store m (blink m c) (wordBytes (flink m c))) c = blink m c :=
    blink_store_flink hU hb hc _
  have hunlink : unlink m c = store (store m (blink m c) (wordBytes (flink m c)))
      (flink m c + BitVec.ofNat 32 4) (wordBytes (blink m c)) := by
    rw [unlink, hflink, hblink]
  rw [hunlink]
  refine ⟨fun u hu => ?_, fun u hu => ?_, fun x hxb hxf => ?_⟩
  · rw [flink_store_blink hU hf hu, flink_store_flink hU hb hu]
  · rw [blink_store_blink hU hf hu, blink_store_flink hU hb hu]
  · rw [store_of_notMem (by simp) fun hx => hxf (Region.mem_of_part hx (by simp)),
      store_of_notMem (by simp) fun hx => hxb (Region.mem_of_le hx (by simp))]

end

/-! ## Rings -/

/-- The link cells of the heads and the entries. -/
def linkCells (heads : DWORD) (entries : List DWORD) : Set DWORD :=
  {c | ∃ b ∈ heads :: entries, ∃ k : LoaderList, c = k.links b}

namespace Apart

theorem links_inj (h : Apart heads entries) {b b' : DWORD} (hb : b ∈ heads :: entries)
    (hb' : b' ∈ heads :: entries) {k k' : LoaderList} (heq : k.links b = k'.links b') :
    b = b' ∧ k = k' := by
  by_contra hn
  have hne : b ≠ b' ∨ k ≠ k' := by
    by_cases hbb : b = b'
    · exact .inr fun hk => hn ⟨hbb, hk⟩
    · exact .inl hbb
  have hd := h.links hb hb' hne
  rw [heq] at hd
  exact hd (k'.links b') (by simp [Region.mem_iff]) (by simp [Region.mem_iff])

theorem cells (h : Apart heads entries) : Cells (linkCells heads entries) := by
  rintro _ ⟨b, hb, k, rfl⟩ _ ⟨b', hb', k', rfl⟩ hne
  refine h.links hb hb' ?_
  by_cases hbb : b = b'
  · subst hbb
    exact .inr fun hk => hne (by rw [hk])
  · exact .inl hbb

/-- The links of a list are different cells. -/
theorem nodup_links (h : Apart heads entries) (k : LoaderList) {bs : List DWORD}
    (hbs : bs.Nodup) (hsub : ∀ b ∈ bs, b ∈ heads :: entries) : (bs.map k.links).Nodup :=
  hbs.map_on fun b hb b' hb' heq => (h.links_inj (hsub b hb) (hsub b' hb') heq).1

end Apart

/-- What unlinking the cell of `b` in the list `k` does, between the cells of `p` and `n`. -/
structure Unlinked (m m' : DWORD → BYTE) (bases : List DWORD) (k : LoaderList) (p n : DWORD) :
    Prop where
  next : ∀ k', ∀ d ∈ bases, flink m' (k'.links d) =
    if k' = k ∧ d = p then k.links n else flink m (k'.links d)
  prev : ∀ k', ∀ d ∈ bases, blink m' (LoaderList.links k' d) =
    if k' = k ∧ d = n then k.links p else blink m (k'.links d)
  frame : ∀ x, (∀ b ∈ bases, x ∉ (⟨b, 24⟩ : Region 32)) → m' x = m x

theorem unlinked (ha : Apart heads entries) {k : LoaderList} {b p n : DWORD}
    (hb : b ∈ heads :: entries) (hp : p ∈ heads :: entries) (hn : n ∈ heads :: entries)
    (hprev : blink m (k.links b) = k.links p) (hnext : flink m (k.links b) = k.links n)
    (hpb : p ≠ b) : Unlinked m (unlink m (k.links b)) (heads :: entries) k p n := by
  have hcell : ∀ k' : LoaderList, ∀ d ∈ heads :: entries, k'.links d ∈ linkCells heads entries :=
    fun k' d hd => ⟨d, hd, k', rfl⟩
  have hinj : ∀ k' : LoaderList, ∀ d ∈ heads :: entries, ∀ d' ∈ heads :: entries,
      k'.links d = k.links d' ↔ k' = k ∧ d = d' := by
    intro k' d hd d' hd'
    constructor
    · intro heq
      obtain ⟨h, h'⟩ := ha.links_inj hd hd' heq
      exact ⟨h', h⟩
    · rintro ⟨rfl, rfl⟩
      rfl
  obtain ⟨hflink, hblink, hframe⟩ := unlink_spec ha.cells (hcell k b hb)
    (hprev ▸ hcell k p hp) (hnext ▸ hcell k n hn)
    (by rw [hprev]; exact fun heq => hpb (ha.links_inj hp hb heq).1)
  rw [hprev, hnext] at hflink hblink hframe
  refine ⟨fun k' d hd => ?_, fun k' d hd => ?_, fun x hx => hframe x ?_ ?_⟩
  · rw [hflink _ (hcell k' d hd)]
    simp only [hinj k' d hd p hp]
  · rw [hblink _ (hcell k' d hd)]
    simp only [hinj k' d hd n hn]
  · exact fun h => hx p hp (Region.mem_of_part h k.offset_le)
  · exact fun h => hx n hn (Region.mem_of_part h k.offset_le)

/-- The other lists keep their links. -/
theorem Unlinked.other {bases : List DWORD} {k : LoaderList} {p n d : DWORD}
    (hu : Unlinked m m' bases k p n) (k' : LoaderList) (hk : k' ≠ k) (hd : d ∈ bases) :
    flink m' (k'.links d) = flink m (k'.links d) ∧
      blink m' (k'.links d) = blink m (k'.links d) :=
  ⟨by rw [hu.next k' d hd, if_neg fun h => hk h.1],
    by rw [hu.prev k' d hd, if_neg fun h => hk h.1]⟩

theorem mem_links {k : LoaderList} {l : List DWORD} {c : DWORD} :
    c ∈ k.links heads :: l.map k.links ↔ ∃ b ∈ heads :: l, k.links b = c := by
  rw [← List.map_cons, List.mem_map]

/-- The neighbours of an entry in a list. -/
theorem Rings.neighbours (hr : Rings m heads lists) {k : LoaderList} {e : DWORD}
    {pre post : List DWORD} (hlist : lists k = pre ++ e :: post) :
    ∃ p ∈ heads :: (pre ++ post), ∃ n ∈ heads :: (pre ++ post),
      k.links p = blink m (k.links e) ∧ k.links n = flink m (k.links e) := by
  have hring := hr k
  rw [hlist, List.map_append, List.map_cons] at hring
  obtain ⟨hprev, hnext⟩ := hring.neighbours
  rw [← List.map_append, mem_links] at hprev hnext
  obtain ⟨p, hp, hpeq⟩ := hprev
  obtain ⟨n, hn, hneq⟩ := hnext
  exact ⟨p, hp, n, hn, hpeq, hneq⟩

section

variable {k k' : LoaderList} {p n e : DWORD} {pre post l : List DWORD}

/-- The two other rings stay. -/
theorem Unlinked.ring_other (hu : Unlinked m m' (heads :: entries) k p n) (hk : k' ≠ k)
    (hsub : ∀ b ∈ l, b ∈ entries)
    (hr : IsRing (flink m) (blink m) (k'.links heads) (l.map k'.links)) :
    IsRing (flink m') (blink m') (k'.links heads) (l.map k'.links) := by
  have hbase := List.cons_subset_cons heads hsub
  refine hr.congr (fun u hu' => ?_) fun v hv => ?_
  · obtain ⟨d, hd, rfl⟩ := mem_links.mp hu'
    exact (hu.other k' hk (hbase hd)).1
  · obtain ⟨d, hd, rfl⟩ := mem_links.mp hv
    exact (hu.other k' hk (hbase hd)).2

/-- The ring of the entry closes up behind it. -/
theorem Unlinked.ring_self (hu : Unlinked m m' (heads :: entries) k p n)
    (ha : Apart heads entries) (hnd : (heads :: (pre ++ e :: post)).Nodup)
    (hsub : ∀ b ∈ pre ++ e :: post, b ∈ entries)
    (hp : p ∈ heads :: (pre ++ post)) (hn : n ∈ heads :: (pre ++ post))
    (hprev : k.links p = blink m (k.links e)) (hnext : k.links n = flink m (k.links e))
    (hr : IsRing (flink m) (blink m) (k.links heads) ((pre ++ e :: post).map k.links)) :
    IsRing (flink m') (blink m') (k.links heads) ((pre ++ post).map k.links) := by
  have hbase := List.cons_subset_cons heads hsub
  have hrest : ∀ b ∈ heads :: (pre ++ post), b ∈ heads :: entries := fun b hb =>
    hbase (List.cons_subset_cons heads ((List.sublist_cons_self e post).append_left pre).subset hb)
  have hnodup := ha.nodup_links k hnd fun b hb => hbase hb
  rw [List.map_cons, List.map_append, List.map_cons] at hnodup
  rw [List.map_append, List.map_cons] at hr
  rw [List.map_append]
  refine hr.unlink hnodup ?_ ?_ (fun u hu' hne => ?_) fun v hv hne => ?_
  · rw [← hprev, hu.next k p (hrest p hp), if_pos ⟨rfl, rfl⟩, hnext]
  · rw [← hnext, hu.prev k n (hrest n hn), if_pos ⟨rfl, rfl⟩, hprev]
  · rw [← List.map_append] at hu'
    obtain ⟨d, hd, rfl⟩ := mem_links.mp hu'
    rw [hu.next k d (hrest d hd), if_neg]
    rintro ⟨-, rfl⟩
    exact hne hprev
  · rw [← List.map_append] at hv
    obtain ⟨d, hd, rfl⟩ := mem_links.mp hv
    rw [hu.prev k d (hrest d hd), if_neg]
    rintro ⟨-, rfl⟩
    exact hne hnext

end

/-- Unlinking an entry takes it out of the ring and leaves the two other rings as they are. -/
theorem Rings.unlink_entry (hr : Rings m heads lists) (ha : Apart heads entries)
    (hsub : ∀ k, ∀ e ∈ lists k, e ∈ entries) (hnd : ∀ k, (lists k).Nodup) {k : LoaderList}
    {e : DWORD} (he : e ∈ lists k) :
    Rings (unlink m (k.links e)) heads (Function.update lists k ((lists k).erase e)) ∧
    ∀ x, (∀ b ∈ heads :: entries, x ∉ (⟨b, 24⟩ : Region 32)) →
      unlink m (k.links e) x = m x := by
  obtain ⟨pre, post, hlist⟩ := List.append_of_mem he
  have hheads : (heads :: lists k).Nodup :=
    List.nodup_cons.mpr ⟨fun h => (List.nodup_cons.mp ha.nodup).1 (hsub k heads h), hnd k⟩
  have hmiddle : e ∉ heads :: (pre ++ post) := by
    rw [hlist, ← List.cons_append, List.nodup_middle, List.cons_append] at hheads
    exact (List.nodup_cons.mp hheads).1
  obtain ⟨p, hp, n, hn, hprev, hnext⟩ := hr.neighbours hlist
  have hbase : ∀ b ∈ heads :: (pre ++ post), b ∈ heads :: entries := by
    intro b hb
    refine List.cons_subset_cons heads (hsub k) ?_
    rw [hlist]
    exact List.cons_subset_cons heads
      ((List.sublist_cons_self e post).append_left pre).subset hb
  have hu := unlinked ha (List.mem_cons_of_mem _ (hsub k e he)) (hbase p hp) (hbase n hn)
    hprev.symm hnext.symm fun heq => hmiddle (heq ▸ hp)
  have hpre : e ∉ pre := fun h => hmiddle (List.mem_cons_of_mem _ (List.mem_append_left _ h))
  have hself : IsRing (flink (unlink m (k.links e))) (blink (unlink m (k.links e)))
      (k.links heads) (((lists k).erase e).map k.links) := by
    have hring := hr k
    have hsub' := hsub k
    rw [hlist] at hring hsub' hheads
    rw [hlist, List.erase_append_right _ hpre, List.erase_cons_head]
    exact hu.ring_self ha hheads hsub' hp hn hprev hnext hring
  refine ⟨?_, hu.frame⟩
  exact (Function.forall_update_iff lists fun k' l => IsRing _ _ (k'.links heads)
    (l.map k'.links)).mpr ⟨hself, fun k' hk => hu.ring_other hk (hsub k') (hr k')⟩

/-- Unlinking an entry list after list. -/
theorem Rings.unlink_lists (hr : Rings m heads lists) (ha : Apart heads entries)
    (hsub : ∀ k, ∀ e ∈ lists k, e ∈ entries) (hnd : ∀ k, (lists k).Nodup) {ks : List LoaderList}
    (hks : ks.Nodup) {e : DWORD} (he : ∀ k ∈ ks, e ∈ lists k) :
    Rings (ks.foldl (fun m k => unlink m (k.links e)) m) heads
      (fun k => if k ∈ ks then (lists k).erase e else lists k) ∧
    ∀ x, (∀ b ∈ heads :: entries, x ∉ (⟨b, 24⟩ : Region 32)) →
      ks.foldl (fun m k => unlink m (k.links e)) m x = m x := by
  induction ks generalizing m lists with
  | nil => exact ⟨by simpa using hr, fun _ _ => rfl⟩
  | cons k ks ih =>
    obtain ⟨hk, hks⟩ := List.nodup_cons.mp hks
    obtain ⟨hr₁, hframe₁⟩ := hr.unlink_entry ha hsub hnd (he k (List.mem_cons_self ..))
    have hne : ∀ k' ∈ ks, k' ≠ k := fun k' hk' heq => hk (heq ▸ hk')
    have hsub₁ : ∀ k', ∀ e' ∈ Function.update lists k ((lists k).erase e) k', e' ∈ entries :=
      (Function.forall_update_iff lists fun _ l => ∀ e' ∈ l, e' ∈ entries).mpr
        ⟨fun e' he' => hsub k e' (List.mem_of_mem_erase he'), fun k' _ => hsub k'⟩
    have hnd₁ : ∀ k', (Function.update lists k ((lists k).erase e) k').Nodup :=
      (Function.forall_update_iff lists fun _ l => l.Nodup).mpr
        ⟨(hnd k).erase e, fun k' _ => hnd k'⟩
    have he₁ : ∀ k' ∈ ks, e ∈ Function.update lists k ((lists k).erase e) k' := by
      intro k' hk'
      rw [Function.update_of_ne (hne k' hk')]
      exact he k' (List.mem_cons_of_mem _ hk')
    obtain ⟨hr₂, hframe₂⟩ := ih hr₁ hsub₁ hnd₁ hks he₁
    refine ⟨?_, fun x hx => (hframe₂ x hx).trans (hframe₁ x hx)⟩
    have hlists : (fun k' => if k' ∈ k :: ks then (lists k').erase e else lists k') =
        fun k' => if k' ∈ ks then (Function.update lists k ((lists k).erase e) k').erase e
          else Function.update lists k ((lists k).erase e) k' := by
      funext k'
      by_cases hk' : k' = k
      · subst hk'
        simp [hk]
      · simp [hk']
    rw [hlists]
    exact hr₂

/-! ## The walk -/

@[simp] theorem links_inLoadOrder (base : DWORD) : LoaderList.inLoadOrder.links base = base :=
  BitVec.add_zero base

theorem Rings.load (hr : Rings m heads lists) :
    IsRing (flink m) (blink m) heads (lists .inLoadOrder) := by
  have h := hr .inLoadOrder
  have hid : LoaderList.inLoadOrder.links = id := funext links_inLoadOrder
  rwa [hid, List.map_id] at h

/-- The walk goes past entries of other modules. -/
theorem hideModuleLoop_walk {pre post : List DWORD} {c t : DWORD}
    (hl : Linked (flink m) (blink m) (c :: (pre ++ t :: post)))
    (hpre : ∀ e ∈ pre, dllBase m e ≠ 0 ∧ dllBase m e ≠ hModule) (fuel : Nat) :
    hideModuleLoop m hModule (pre.length + fuel) (flink m c) = hideModuleLoop m hModule fuel t := by
  induction pre generalizing c with
  | nil =>
    have hnext : flink m c = t := (List.isChain_cons_cons.mp hl).1.1
    rw [hnext, List.length_nil, Nat.zero_add]
  | cons e pre ih =>
    have hnext : flink m c = e := (List.isChain_cons_cons.mp hl).1.1
    obtain ⟨h0, hne⟩ := hpre e (List.mem_cons_self ..)
    rw [hnext, List.length_cons, Nat.succ_add, hideModuleLoop, if_pos h0, if_neg hne,
      links_inLoadOrder]
    exact ih hl.tail fun e' he' => hpre e' (List.mem_cons_of_mem _ he')

theorem hideModuleLoop_add {fuel : Nat} {c : DWORD} (h : hideModuleLoop m hModule fuel c = some m')
    (n : Nat) : hideModuleLoop m hModule (fuel + n) c = some m' := by
  induction fuel generalizing c with
  | zero => cases h
  | succ fuel ih =>
    rw [Nat.succ_add, hideModuleLoop]
    rw [hideModuleLoop] at h
    split at h
    · rename_i h0
      rw [if_pos h0]
      split at h
      · rename_i heq
        rw [if_pos heq]
        exact h
      · rename_i hne
        rw [if_neg hne]
        exact ih h
    · rename_i h0
      rw [if_neg h0]
      exact h

/-- The number of rounds does not matter, once the loop has ended. -/
theorem hideModule_unique {ldr : DWORD} {fuel fuel' : Nat} {m₁ m₂ : DWORD → BYTE}
    (h₁ : hideModule m ldr hModule fuel = some m₁) (h₂ : hideModule m ldr hModule fuel' = some m₂) :
    m₁ = m₂ := by
  have h₁' := hideModuleLoop_add h₁ fuel'
  have h₂' := hideModuleLoop_add h₂ fuel
  rw [Nat.add_comm] at h₂'
  exact Option.some.inj (h₁'.symm.trans h₂')

/-- If neither an entry nor the word behind the heads stops the loop, it goes round for ever. -/
theorem hideModuleLoop_none (hr : IsRing (flink m) (blink m) heads entries)
    (hne : ∀ c ∈ heads :: entries, dllBase m c ≠ 0 ∧ dllBase m c ≠ hModule) {c : DWORD}
    (hc : c ∈ heads :: entries) (fuel : Nat) : hideModuleLoop m hModule fuel c = none := by
  induction fuel generalizing c with
  | zero => rfl
  | succ fuel ih =>
    rw [hideModuleLoop, if_pos (hne c hc).1, if_neg (hne c hc).2, links_inLoadOrder]
    exact ih (hr.next_mem hc)

/-! ## The entry of the module -/

namespace LoaderLists

variable {ldr : DWORD}

theorem mem (h : LoaderLists m heads lists) (k : LoaderList) {e : DWORD} :
    e ∈ lists k ↔ e ∈ lists .inLoadOrder :=
  (h.perm k).mem_iff

theorem nodup (h : LoaderLists m heads lists) (k : LoaderList) : (lists k).Nodup :=
  (h.perm k).nodup_iff.mpr (List.nodup_cons.mp h.apart.nodup).2

/-- Unlinking an entry takes it out of the three lists, and nothing but links changes. -/
theorem erase (h : LoaderLists m heads lists) {e : DWORD} (he : e ∈ lists .inLoadOrder) :
    LoaderLists (unlinkModule m e) heads (fun k => (lists k).erase e) ∧
    ∀ x, (∀ b ∈ heads :: lists .inLoadOrder, x ∉ (⟨b, 24⟩ : Region 32)) →
      unlinkModule m e x = m x := by
  obtain ⟨hrings, hframe⟩ := h.rings.unlink_lists h.apart (fun k e' => (h.mem k).mp) h.nodup
    (show [LoaderList.inLoadOrder, .inMemoryOrder, .inInitializationOrder].Nodup by decide)
    fun k _ => (h.mem k).mpr he
  have hsub : ∀ e' ∈ (lists .inLoadOrder).erase e, e' ∈ lists .inLoadOrder :=
    fun e' => List.mem_of_mem_erase
  refine ⟨⟨⟨fun e' he' => h.apart.heads e' (hsub e' he'),
    h.apart.entries.sublist List.erase_sublist⟩, fun k => (h.perm k).erase e, ?_, ?_⟩, hframe⟩
  · intro k
    have hk := hrings k
    beta_reduce at hk
    have hmem : k ∈ [LoaderList.inLoadOrder, .inMemoryOrder, .inInitializationOrder] := by
      cases k <;> decide
    rwa [if_pos hmem] at hk
  · intro e' he'
    have hbase : dllBase (unlinkModule m e) e' = dllBase m e' :=
      readWord_congr fun x hx =>
        hframe x fun b hb => h.apart.dllBase hb (hsub e' he') x hx
    rw [hbase]
    exact h.modules e' (hsub e' he')

/-- The loop ends at the first entry of the module. -/
theorem hideModule_found (h : LoaderLists m (loaderHeads ldr) lists) {e : DWORD}
    (he : (lists .inLoadOrder).find? (dllBase m · = hModule) = some e) :
    ∃ fuel, hideModule m ldr hModule fuel = some (unlinkModule m e) := by
  obtain ⟨hbase, pre, post, hlist, hpre⟩ := List.find?_eq_some_iff_append.mp he
  simp only [decide_eq_true_eq] at hbase
  have hl : Linked (flink m) (blink m)
      (loaderHeads ldr :: (pre ++ e :: (post ++ [loaderHeads ldr]))) := by
    have hr := h.rings.load
    rwa [IsRing, hlist, List.append_assoc, List.cons_append] at hr
  refine ⟨pre.length + 1, ?_⟩
  rw [hideModule, links_inLoadOrder, hideModuleLoop_walk hl (fun e' he' => ⟨?_, ?_⟩),
    hideModuleLoop, if_pos (h.modules e (List.mem_of_find?_eq_some he)), if_pos hbase]
  · exact h.modules e' (hlist ▸ List.mem_append_left _ he')
  · simpa using hpre e' he'

/-- Without an entry of the module, the loop comes round to the heads. -/
theorem hideModule_notFound (h : LoaderLists m (loaderHeads ldr) lists)
    (hne : ∀ e ∈ lists .inLoadOrder, dllBase m e ≠ hModule) (fuel : Nat) :
    hideModule m ldr hModule ((lists .inLoadOrder).length + fuel) =
      hideModuleLoop m hModule fuel (loaderHeads ldr) := by
  have hl : Linked (flink m) (blink m)
      (loaderHeads ldr :: (lists .inLoadOrder ++ loaderHeads ldr :: [])) := h.rings.load
  rw [hideModule, links_inLoadOrder]
  exact hideModuleLoop_walk hl (fun e he => ⟨h.modules e he, hne e he⟩) fuel

end LoaderLists

/-! ## The heads taken for an entry -/

/-- The neighbours of the heads in a list with entries. -/
theorem Rings.ends (hr : Rings m heads lists) {k : LoaderList} (hne : lists k ≠ []) :
    ∃ p ∈ lists k, ∃ n ∈ lists k, blink m (k.links heads) = k.links p ∧
      flink m (k.links heads) = k.links n ∧ flink m (k.links p) = k.links heads := by
  have h := hr k
  obtain ⟨n, post, hfirst⟩ := List.exists_cons_of_ne_nil hne
  obtain ⟨pre, p, hlast⟩ := (List.eq_nil_or_concat (lists k)).resolve_left hne
  rw [List.concat_eq_append] at hlast
  have hnext : flink m (k.links heads) = k.links n := by
    rw [hfirst, List.map_cons] at h
    exact (List.isChain_cons_cons.mp h).1.1
  have hprev : flink m (k.links p) = k.links heads ∧ blink m (k.links heads) = k.links p := by
    rw [hlast, List.map_append, IsRing, List.append_assoc, ← List.cons_append] at h
    exact Linked.links h
  exact ⟨p, by simp [hlast], n, by simp [hfirst], hprev.2, hnext, hprev.1⟩

/-- Unlinking a cell that is linked to itself changes nothing. -/
theorem unlink_self {c : DWORD} (hf : flink m c = c) (hb : blink m c = c) : unlink m c = m := by
  have hfirst : store m c (wordBytes (flink m c)) = m := store_readWord m c
  have hsecond : store m (c + BitVec.ofNat 32 4) (wordBytes (blink m c)) = m := store_readWord m _
  rw [unlink, hb, hfirst, hf]
  exact hsecond

/-- The heads of empty lists are unlinked without a change. -/
theorem unlinkModule_heads_nil (hr : Rings m heads lists) (hnil : ∀ k, lists k = []) :
    unlinkModule m heads = m := by
  have hself : ∀ k : LoaderList, unlink m (k.links heads) = m := by
    intro k
    have h := hr k
    rw [hnil k] at h
    obtain ⟨hf, hb⟩ := (List.isChain_cons_cons.mp h).1
    exact unlink_self hf hb
  rw [unlinkModule, hself, hself, hself]

/-- The heads of lists with entries are taken out of the lists: the last entry in load order is no
longer linked to them. -/
theorem LoaderLists.unlinkModule_heads (h : LoaderLists m heads lists)
    (hne : lists .inLoadOrder ≠ []) : unlinkModule m heads ≠ m := by
  have hnek : ∀ k, lists k ≠ [] := fun k hk => hne ((hk ▸ h.perm k).symm.eq_nil)
  have hbase : ∀ k, ∀ b ∈ lists k, b ∈ heads :: lists .inLoadOrder := fun k b hb =>
    List.mem_cons_of_mem heads ((h.mem k).mp hb)
  have hheads : ∀ k, heads ∉ lists k := fun k hk =>
    (List.nodup_cons.mp h.apart.nodup).1 ((h.mem k).mp hk)
  have hself : heads ∈ heads :: lists .inLoadOrder := List.mem_cons_self ..
  -- one unlinking after the other, each with the neighbours of the heads in its list
  obtain ⟨p, hp, n, hn, hprev, hnext, hlast⟩ := h.rings.ends (hnek .inLoadOrder)
  have hu := unlinked h.apart hself (hbase _ p hp) (hbase _ n hn) hprev hnext
    fun heq => hheads _ (heq ▸ hp)
  obtain ⟨p₁, hp₁, n₁, hn₁, hprev₁, hnext₁, -⟩ := h.rings.ends (hnek .inMemoryOrder)
  obtain ⟨hf₁, hb₁⟩ := hu.other .inMemoryOrder (by decide) hself
  have hu₁ := unlinked h.apart hself (hbase _ p₁ hp₁) (hbase _ n₁ hn₁) (hb₁.trans hprev₁)
    (hf₁.trans hnext₁) fun heq => hheads _ (heq ▸ hp₁)
  obtain ⟨p₂, hp₂, n₂, hn₂, hprev₂, hnext₂, -⟩ := h.rings.ends (hnek .inInitializationOrder)
  obtain ⟨hf₂, hb₂⟩ := hu.other .inInitializationOrder (by decide) hself
  obtain ⟨hf₂', hb₂'⟩ := hu₁.other .inInitializationOrder (by decide) hself
  have hu₂ := unlinked h.apart hself (hbase _ p₂ hp₂) (hbase _ n₂ hn₂)
    ((hb₂'.trans hb₂).trans hprev₂) ((hf₂'.trans hf₂).trans hnext₂) fun heq => hheads _ (heq ▸ hp₂)
  intro heq
  have hlinks : flink (unlinkModule m heads) (LoaderList.inLoadOrder.links p) =
      LoaderList.inLoadOrder.links n := by
    have h₂ := (hu₂.other .inLoadOrder (by decide) (hbase _ p hp)).1
    have h₁ := (hu₁.other .inLoadOrder (by decide) (hbase _ p hp)).1
    have h₀ := hu.next .inLoadOrder p (hbase _ p hp)
    rw [if_pos ⟨rfl, rfl⟩] at h₀
    exact (h₂.trans h₁).trans h₀
  rw [heq, hlast, links_inLoadOrder, links_inLoadOrder] at hlinks
  exact hheads _ (hlinks ▸ hn)

/-! ## The word behind the heads -/

/-- The loop ends; the first entry of the module is out of the three lists and nothing but links has
changed, or the module has no entry and nothing has changed at all. -/
def HidesModule (m : DWORD → BYTE) (ldr hModule : DWORD) (lists : LoaderList → List DWORD) : Prop :=
  ∃ fuel m', hideModule m ldr hModule fuel = some m' ∧
    match (lists .inLoadOrder).find? (dllBase m · = hModule) with
    | some e => LoaderLists m' (loaderHeads ldr) (fun k => (lists k).erase e) ∧
        ∀ x, (∀ b ∈ loaderHeads ldr :: lists .inLoadOrder, x ∉ (⟨b, 24⟩ : Region 32)) → m' x = m x
    | none => m' = m

/-- A module without an entry: the loop has to read null behind the heads, or to unlink heads that
are linked to themselves. -/
theorem hidesModule_of_notFound {ldr : DWORD} (h : LoaderLists m (loaderHeads ldr) lists)
    (hne : ∀ e ∈ lists .inLoadOrder, dllBase m e ≠ hModule) :
    HidesModule m ldr hModule lists ↔ dllBase m (loaderHeads ldr) = 0 ∨
      (dllBase m (loaderHeads ldr) = hModule ∧ lists .inLoadOrder = []) := by
  have hfind : (lists .inLoadOrder).find? (dllBase m · = hModule) = none :=
    List.find?_eq_none.mpr fun e he => by simpa using hne e he
  have hround := h.hideModule_notFound hne 1
  rw [hideModuleLoop] at hround
  simp only [HidesModule, hfind]
  by_cases h0 : dllBase m (loaderHeads ldr) = 0
  · rw [if_neg (not_not.mpr h0)] at hround
    exact ⟨fun _ => .inl h0, fun _ => ⟨_, m, hround, rfl⟩⟩
  rw [if_pos h0] at hround
  by_cases heq : dllBase m (loaderHeads ldr) = hModule
  · -- the heads are unlinked
    rw [if_pos heq] at hround
    constructor
    · rintro ⟨fuel, _, hm, rfl⟩
      refine .inr ⟨heq, by_contra fun hnil => ?_⟩
      exact h.unlinkModule_heads hnil (hideModule_unique hround hm)
    · rintro (h0' | ⟨-, hnil⟩)
      · exact absurd h0' h0
      · have hall : ∀ k, lists k = [] := fun k => (hnil ▸ h.perm k).eq_nil
        exact ⟨_, _, hround, unlinkModule_heads_nil h.rings hall⟩
  · -- nothing ends the loop
    have hnever : ∀ fuel, hideModule m ldr hModule fuel = none := by
      intro fuel
      rw [hideModule, links_inLoadOrder]
      refine hideModuleLoop_none h.rings.load (fun c hc => ?_)
        (h.rings.load.next_mem (List.mem_cons_self ..)) fuel
      rcases List.mem_cons.mp hc with rfl | hc
      · exact ⟨h0, heq⟩
      · exact ⟨h.modules c hc, hne c hc⟩
    constructor
    · rintro ⟨fuel, m', hm, -⟩
      rw [hnever fuel] at hm
      cases hm
    · rintro (h0' | ⟨heq', -⟩)
      · exact absurd h0' h0
      · exact absurd heq' heq

/-- `HideModule` keeps the lists well formed and ends exactly when the module has an entry or the
word behind the heads is null; or it is the handle of the module, and the lists are empty. -/
theorem hidesModule_iff {ldr : DWORD} (h : LoaderLists m (loaderHeads ldr) lists) :
    HidesModule m ldr hModule lists ↔ (∃ e ∈ lists .inLoadOrder, dllBase m e = hModule) ∨
      dllBase m (loaderHeads ldr) = 0 ∨
      (dllBase m (loaderHeads ldr) = hModule ∧ lists .inLoadOrder = []) := by
  by_cases hex : ∃ e ∈ lists .inLoadOrder, dllBase m e = hModule
  · refine ⟨fun _ => .inl hex, fun _ => ?_⟩
    obtain ⟨e, he⟩ := Option.isSome_iff_exists.mp
      (List.find?_isSome (p := fun e => decide (dllBase m e = hModule)) |>.mpr (by simpa using hex))
    obtain ⟨fuel, hm⟩ := h.hideModule_found he
    refine ⟨fuel, _, hm, ?_⟩
    rw [he]
    exact h.erase (List.mem_of_find?_eq_some he)
  · rw [hidesModule_of_notFound h fun e he heq => hex ⟨e, he, heq⟩]
    exact ⟨.inr, fun hor => hor.resolve_left hex⟩

/-- Lists of one module, and a word behind the heads that is not null. -/
def oneModule : DWORD → BYTE :=
  let heads := [0x2000, 0x2000, 0x2008, 0x2008, 0x2010, 0x2010, 1]
  let entry := [0x100C, 0x100C, 0x1014, 0x1014, 0x101C, 0x101C, 0x400000]
  store (store (fun _ => 0) 0x100C (heads.flatMap wordBytes)) 0x2000 (entry.flatMap wordBytes)

theorem loaderLists_oneModule : LoaderLists oneModule (loaderHeads 0x1000) fun _ => [0x2000] where
  apart := by
    refine ⟨fun e he => ?_, List.pairwise_singleton _ _⟩
    rw [List.mem_singleton.mp he]
    exact Region.disjoint_of_toNat (by decide) (by decide)
  perm := fun _ => .refl _
  rings := by
    intro k
    cases k <;> exact List.isChain_cons_cons.mpr ⟨by decide,
      List.isChain_cons_cons.mpr ⟨by decide, .singleton _⟩⟩
  modules := by
    intro e he
    rw [List.mem_singleton.mp he]
    decide

/-- Lists of three modules, in three orders. -/
def threeLists : LoaderList → List DWORD
  | .inLoadOrder => [0x2000, 0x3000, 0x4000]
  | .inMemoryOrder => [0x3000, 0x2000, 0x4000]
  | .inInitializationOrder => [0x4000, 0x3000, 0x2000]

def threeModules : DWORD → BYTE :=
  let heads := [0x2000, 0x4000, 0x3008, 0x4008, 0x4010, 0x2010, 1]
  let first := [0x3000, 0x100C, 0x4008, 0x3008, 0x101C, 0x3010, 0x400000]
  let second := [0x4000, 0x2000, 0x2008, 0x1014, 0x2010, 0x4010, 0x10000000]
  let third := [0x100C, 0x3000, 0x1014, 0x2008, 0x3010, 0x101C, 0x20000000]
  let m := store (fun _ => 0) 0x100C (heads.flatMap wordBytes)
  let m := store m 0x2000 (first.flatMap wordBytes)
  store (store m 0x3000 (second.flatMap wordBytes)) 0x4000 (third.flatMap wordBytes)

theorem loaderLists_threeModules : LoaderLists threeModules (loaderHeads 0x1000) threeLists where
  apart := by
    constructor
    · intro e he
      simp only [threeLists, List.mem_cons, List.not_mem_nil, or_false] at he
      rcases he with rfl | rfl | rfl <;> exact Region.disjoint_of_toNat (by decide) (by decide)
    · have h23 : Region.Disjoint (w := 32) ⟨0x2000, 28⟩ ⟨0x3000, 28⟩ :=
        Region.disjoint_of_toNat (by decide) (by decide)
      have h24 : Region.Disjoint (w := 32) ⟨0x2000, 28⟩ ⟨0x4000, 28⟩ :=
        Region.disjoint_of_toNat (by decide) (by decide)
      have h34 : Region.Disjoint (w := 32) ⟨0x3000, 28⟩ ⟨0x4000, 28⟩ :=
        Region.disjoint_of_toNat (by decide) (by decide)
      simp only [threeLists, List.pairwise_cons, List.mem_cons, List.not_mem_nil, or_false,
        forall_eq_or_imp, forall_eq, IsEmpty.forall_iff, implies_true, and_true,
        List.Pairwise.nil]
      exact ⟨⟨h23, h24⟩, h34⟩
  perm := by
    intro k
    cases k <;> decide
  rings := by
    intro k
    cases k <;> unfold IsRing Linked <;> decide +kernel
  modules := by
    intro e he
    simp only [threeLists, List.mem_cons, List.not_mem_nil, or_false] at he
    rcases he with rfl | rfl | rfl <;> decide +kernel

/-- The second of three modules is taken out of the three lists. -/
theorem hidesModule_iff_threeModules : HidesModule threeModules 0x1000 0x10000000 threeLists :=
  (hidesModule_iff loaderLists_threeModules).mpr (.inl ⟨0x3000, by decide, by decide +kernel⟩)

/-- A module that is not in the lists: the loop never ends. -/
theorem not_hidesModule_unlisted : LoaderLists oneModule (loaderHeads 0x1000) (fun _ => [0x2000]) ∧
    ¬ HidesModule oneModule 0x1000 0x10000000 fun _ => [0x2000] := by
  refine ⟨loaderLists_oneModule, ?_⟩
  have hne : ∀ e ∈ [(0x2000 : DWORD)], dllBase oneModule e ≠ 0x10000000 := by
    intro e he
    rw [List.mem_singleton.mp he]
    decide
  rw [hidesModule_of_notFound loaderLists_oneModule hne]
  decide

end Bossran
