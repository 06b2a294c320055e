import BossranMenu.MinHook.Patch

/-!
# The table of hooks (`hook.c`)

`FindHookEntry`, `AddHookEntry` and `DeleteHookEntry` on the list of the entries, and what they do
to the code that the entries describe.

* `findHookEntry_some`, `findHookEntry_none`, `addHookEntry_items`, `deleteHookEntry_items`.
* `Sized`: the capacity of the table. There is always room for the entries.
* `Code.perm`, `Code.add`, `Code.drop`: the order of the entries does not matter, and a hook that is
  disabled comes and goes without a change of the code.
-/

namespace Bossran

open Memory

/-! ## Entries -/

section Entries

variable {t t' : HookTable} {items pre post : List HookEntry} {h h' e : HookEntry} {pos : Nat}
  {pTarget : DWORD} {heapAlloc added : Bool}

theorem split_at {α : Type} {l : List α} {i : Nat} {x : α} (h : l[i]? = some x) :
    ∃ pre post, l = pre ++ x :: post ∧ pre.length = i := by
  obtain ⟨hi, rfl⟩ := List.getElem?_eq_some_iff.mp h
  refine ⟨l.take i, l.drop (i + 1), ?_, List.length_take_of_le (Nat.le_of_lt hi)⟩
  rw [← List.drop_eq_getElem_cons hi, List.take_append_drop]

theorem entryOf_some (hf : entryOf t pTarget = some (pos, h)) :
    h.pTarget = pTarget ∧ ∃ pre post, t.items = pre ++ h :: post ∧ pre.length = pos := by
  obtain ⟨i, hi, hget⟩ := Option.bind_eq_some_iff.mp hf
  obtain ⟨g, hg, heq⟩ := Option.map_eq_some_iff.mp hget
  obtain ⟨rfl, rfl⟩ := Prod.mk.inj heq
  obtain ⟨hlt, hp, -⟩ := List.findIdx?_eq_some_iff_getElem.mp hi
  obtain ⟨hlt', rfl⟩ := List.getElem?_eq_some_iff.mp hg
  exact ⟨by simpa using hp, split_at hg⟩

theorem entryOf_none (hf : entryOf t pTarget = none) : ∀ h ∈ t.items, h.pTarget ≠ pTarget := by
  rw [entryOf, Option.bind_eq_none_iff] at hf
  intro h hh heq
  cases hidx : findHookEntry t pTarget with
  | none =>
    have hnone := List.findIdx?_eq_none_iff.mp hidx h hh
    simp [heq] at hnone
  | some i =>
    obtain ⟨hlt, -⟩ := List.findIdx?_eq_some_iff_getElem.mp hidx
    have hget := hf i hidx
    rw [List.getElem?_eq_getElem hlt] at hget
    cases hget

theorem findHookEntry_none (hf : findHookEntry t pTarget = none) :
    ∀ h ∈ t.items, h.pTarget ≠ pTarget := entryOf_none (by rw [entryOf, hf]; rfl)

theorem findHookEntry_some (hf : findHookEntry t pTarget = some pos) :
    ∃ h ∈ t.items, h.pTarget = pTarget := by
  obtain ⟨hlt, hp, -⟩ := List.findIdx?_eq_some_iff_getElem.mp hf
  exact ⟨_, List.getElem_mem hlt, by simpa using hp⟩

@[simp] theorem items_set (t : HookTable) (l : List HookEntry) (ht : t.pItems ≠ none) :
    (t.set l).items = l := by
  obtain ⟨items, hitems⟩ := Option.ne_none_iff_exists'.mp ht
  rw [HookTable.set, HookTable.items, hitems]
  rfl

theorem pItems_ne_none (h : t.items ≠ []) : t.pItems ≠ none := by
  intro hnone
  rw [HookTable.items, hnone] at h
  exact h rfl

/-- As many entries as before. -/
theorem items_set_of_length {l : List HookEntry} (h : l.length = t.items.length) :
    (t.set l).items = l := by
  cases hp : t.pItems with
  | none =>
    rw [HookTable.items, hp, Option.getD_none, List.length_nil, List.length_eq_zero_iff] at h
    rw [HookTable.set, HookTable.items, hp, h]
    rfl
  | some items => exact items_set t l (by rw [hp]; nofun)

/-- An entry that was not added: there was no room, and the heap gave none. -/
theorem addHookEntry_fails (ha : addHookEntry t heapAlloc e = (t', false)) : heapAlloc = false := by
  unfold addHookEntry at ha
  grind

theorem addHookEntry_items (ha : addHookEntry t heapAlloc e = (t', added)) :
    t'.items = if added then t.items ++ [e] else t.items := by
  unfold addHookEntry at ha
  split at ha
  · rename_i hnone
    have hempty : t.items = [] := by rw [HookTable.items, hnone]; rfl
    split at ha
    · obtain ⟨rfl, rfl⟩ := Prod.mk.inj ha
      rw [hempty]
      rfl
    · obtain ⟨rfl, rfl⟩ := Prod.mk.inj ha
      rw [hempty]
      rfl
  · rename_i items hsome
    have hitems : t.items = items := by rw [HookTable.items, hsome]; rfl
    split at ha
    · split at ha
      · obtain ⟨rfl, rfl⟩ := Prod.mk.inj ha
        rw [hitems]
        rfl
      · obtain ⟨rfl, rfl⟩ := Prod.mk.inj ha
        rfl
    · obtain ⟨rfl, rfl⟩ := Prod.mk.inj ha
      rw [hitems]
      rfl

/-- The entry at `pos` goes; the order of the others may change. -/
theorem removeAt_perm : (removeAt (pre ++ h :: post) pre.length).Perm (pre ++ post) := by
  rcases List.eq_nil_or_concat post with rfl | ⟨post, last, rfl⟩
  · rw [removeAt, if_neg (by simp), List.append_nil, List.dropLast_concat]
  · have hlast : (pre ++ h :: post.concat last).getLast? = some last := by
      rw [List.concat_eq_append, ← List.cons_append, ← List.append_assoc,
        List.getLast?_concat]
    rw [removeAt, if_pos (by simp), hlast]
    dsimp only
    rw [List.set_append_right _ _ (Nat.le_refl _), Nat.sub_self, List.set_cons_zero,
      List.concat_eq_append, ← List.cons_append, ← List.append_assoc, List.dropLast_concat]
    exact (List.perm_append_singleton last post).symm.append_left pre

theorem deleteHookEntry_items (ht : t.pItems ≠ none) :
    (deleteHookEntry t pos heapAlloc).items = removeAt t.items pos := by
  unfold deleteHookEntry
  dsimp only
  split
  · split
    · exact items_set t _ ht
    · exact items_set t _ ht
  · exact items_set t _ ht

end Entries

/-! ## The capacity -/

/-- The entries fit, and the capacity is what doubling and halving make of the first one. Without
entries there may be no array. -/
structure Sized (t : HookTable) : Prop where
  fits : t.items.length ≤ t.capacity
  capacity : t.pItems ≠ none → ∃ k, t.capacity = INITIAL_HOOK_CAPACITY * 2 ^ k

section Sized

variable {t t' : HookTable} {heapAlloc added : Bool} {e : HookEntry} {pos : Nat}

theorem Sized.set (h : Sized t) {items : List HookEntry} (hlen : items.length = t.items.length) :
    Sized (t.set items) where
  fits := by
    rw [items_set_of_length hlen, hlen]
    exact h.fits
  capacity hne := h.capacity fun hnone => hne (by rw [HookTable.set, hnone]; rfl)

theorem Sized.add (h : Sized t) (ha : addHookEntry t heapAlloc e = (t', added)) : Sized t' := by
  have hitems := addHookEntry_items ha
  unfold addHookEntry at ha
  split at ha
  · rename_i hnone
    have hempty : t.items = [] := by rw [HookTable.items, hnone]; rfl
    split at ha
    · obtain ⟨rfl, rfl⟩ := Prod.mk.inj ha
      refine ⟨?_, fun _ => ⟨0, rfl⟩⟩
      rw [hitems, hempty]
      exact (by decide : 1 ≤ INITIAL_HOOK_CAPACITY)
    · obtain ⟨rfl, rfl⟩ := Prod.mk.inj ha
      exact ⟨Nat.zero_le _, fun hne => absurd rfl hne⟩
  · rename_i items hsome
    have hold : t.items = items := by rw [HookTable.items, hsome]; rfl
    obtain ⟨hfits, hcap⟩ := h
    obtain ⟨k, hk⟩ := hcap (by rw [hsome]; nofun)
    have hpos : 0 < 2 ^ k := Nat.two_pow_pos k
    rw [hold] at hfits
    split at ha
    · split at ha
      · obtain ⟨rfl, rfl⟩ := Prod.mk.inj ha
        refine ⟨?_, fun _ => ⟨k + 1, ?_⟩⟩
        · rw [hitems, if_pos rfl, hold, List.length_append, List.length_singleton]
          dsimp only
          rw [INITIAL_HOOK_CAPACITY] at hk
          omega
        · dsimp only
          rw [hk, Nat.pow_succ, Nat.mul_assoc]
      · obtain ⟨rfl, rfl⟩ := Prod.mk.inj ha
        exact ⟨hold ▸ hfits, hcap⟩
    · obtain ⟨rfl, rfl⟩ := Prod.mk.inj ha
      refine ⟨?_, fun _ => ⟨k, hk⟩⟩
      rw [hitems, if_pos rfl, hold, List.length_append, List.length_singleton]
      dsimp only
      omega

theorem Sized.delete (h : Sized t) (hpos : pos < t.items.length) :
    Sized (deleteHookEntry t pos heapAlloc) := by
  have hne : t.pItems ≠ none := pItems_ne_none (List.ne_nil_of_length_pos (Nat.zero_lt_of_lt hpos))
  have hitems : (deleteHookEntry t pos heapAlloc).items = removeAt t.items pos :=
    deleteHookEntry_items hne
  obtain ⟨pre, post, hsplit, hlen⟩ := split_at (List.getElem?_eq_getElem hpos)
  have hremoved : (removeAt t.items pos).length ≤ t.items.length := by
    have hperm : (removeAt (pre ++ t.items[pos] :: post) pre.length).Perm (pre ++ post) :=
      removeAt_perm
    rw [← hsplit, hlen] at hperm
    have hless := hperm.length_eq
    have hall := congrArg List.length hsplit
    rw [List.length_append] at hless
    rw [List.length_append, List.length_cons] at hall
    omega
  obtain ⟨hfits, hcap⟩ := h
  obtain ⟨k, hk⟩ := hcap hne
  have hset : (t.set (removeAt t.items pos)).capacity = t.capacity := rfl
  have hsame : ∀ t' : HookTable, t'.items = removeAt t.items pos → t'.capacity = t.capacity →
      Sized t' := by
    refine fun t' hi hc => ⟨?_, fun _ => ⟨k, hc.trans hk⟩⟩
    rw [hi, hc]
    exact Nat.le_trans hremoved hfits
  unfold deleteHookEntry at hitems ⊢
  dsimp only at hitems ⊢
  split
  · rename_i hhalf
    rw [if_pos hhalf] at hitems
    split
    · rename_i hok
      rw [if_pos hok] at hitems
      refine ⟨?_, fun _ => ?_⟩
      · rw [hitems]
        exact hhalf.2
      · -- the capacity is not the initial one, and is halved
        dsimp only
        obtain ⟨hinit, -⟩ := hhalf
        rw [hk, INITIAL_HOOK_CAPACITY] at hinit ⊢
        cases k with
        | zero => omega
        | succ k => exact ⟨k, by rw [Nat.pow_succ]; omega⟩
    · rename_i hok
      rw [if_neg hok] at hitems
      exact hsame _ hitems hset
  · rename_i hhalf
    rw [if_neg hhalf] at hitems
    exact hsame _ hitems hset

end Sized

/-! ## The code that the entries describe -/

/-- The entry without what is queued. -/
def HookEntry.patch (h : HookEntry) : HookEntry := { h with queueEnable := false }

namespace Code

variable {m₀ m m' : AddressSpace} {hs hs' : List HookEntry} {h : HookEntry}

theorem nil (h : ∀ x, Loaded m₀ (pageOf x) → m.bytes x = m₀.bytes x) : Code m₀ m [] where
  saved := nofun
  apart := List.Pairwise.nil
  enabled := nofun
  rest x hx _ := h x hx

theorem perm (hc : Code m₀ m hs) (hp : hs.Perm hs') : Code m₀ m hs' where
  saved h hh := hc.saved h (hp.mem_iff.mpr hh)
  apart := (hp.pairwise_iff fun hd => hd.symm).mp hc.apart
  enabled h hh := hc.enabled h (hp.mem_iff.mpr hh)
  rest x hx hnot := hc.rest x hx fun h hh => hnot h (hp.mem_iff.mp hh)

/-- A new hook is disabled. -/
theorem add (hc : Code m₀ m hs) (hs' : Saved m₀ h) (hd : ¬ h.isEnabled)
    (hap : ∀ g ∈ hs, g.window.Disjoint h.window) : Code m₀ m (h :: hs) where
  saved g hg := (List.mem_cons.mp hg).elim (fun heq => heq ▸ hs') (hc.saved g)
  apart := List.pairwise_cons.mpr ⟨fun g hg => (hap g hg).symm, hc.apart⟩
  enabled g hg hen := by
    rcases List.mem_cons.mp hg with rfl | hg
    · exact absurd hen hd
    · exact hc.enabled g hg hen
  rest x hx hnot := hc.rest x hx fun g hg => hnot g (List.mem_cons_of_mem _ hg)

/-- A hook that is disabled goes. -/
theorem drop (hc : Code m₀ m (h :: hs)) (hd : ¬ h.isEnabled) : Code m₀ m hs where
  saved g hg := hc.saved g (List.mem_cons_of_mem _ hg)
  apart := (List.pairwise_cons.mp hc.apart).2
  enabled g hg := hc.enabled g (List.mem_cons_of_mem _ hg)
  rest x hx hnot := by
    refine hc.rest x hx fun g hg hen => ?_
    rcases List.mem_cons.mp hg with rfl | hg
    · exact absurd hen hd
    · exact hnot g hg hen

/-- The code lies in the pages that were in use. -/
theorem congr (hc : Code m₀ m hs) (h : ∀ x, Loaded m₀ (pageOf x) → m'.bytes x = m.bytes x) :
    Code m₀ m' hs where
  saved := hc.saved
  apart := hc.apart
  enabled g hg hen := by
    refine (hc.enabled g hg hen).congr fun x hx => h x ((hc.saved g hg).loaded x ?_)
    rwa [HookEntry.length_jump] at hx
  rest x hx hnot := (h x hx).trans (hc.rest x hx hnot)

/-- Without an enabled hook the code is what it was. -/
theorem original (hc : Code m₀ m hs) (hd : ∀ h ∈ hs, ¬ h.isEnabled) {x : DWORD}
    (hx : Loaded m₀ (pageOf x)) : m.bytes x = m₀.bytes x :=
  hc.rest x hx fun h hh hen => absurd hen (hd h hh)

/-- What is queued has no effect on the code. -/
theorem requeue (hc : Code m₀ m hs) (hp : hs'.map HookEntry.patch = hs.map HookEntry.patch) :
    Code m₀ m hs' := by
  have hold : ∀ {g}, g ∈ hs' → ∃ h ∈ hs, h.patch = g.patch := fun hg =>
    List.mem_map.mp (hp ▸ List.mem_map_of_mem hg)
  have hnew : ∀ {h}, h ∈ hs → ∃ g ∈ hs', g.patch = h.patch := fun hh =>
    List.mem_map.mp (hp.symm ▸ List.mem_map_of_mem hh)
  constructor
  case saved =>
    intro g hg
    obtain ⟨h, hh, heq⟩ := hold hg
    have hs : Saved m₀ h.patch := ⟨(hc.saved h hh).length, (hc.saved h hh).reads,
      (hc.saved h hh).loaded⟩
    rw [heq] at hs
    exact ⟨hs.length, hs.reads, hs.loaded⟩
  case apart =>
    have hwindow : hs'.map HookEntry.window = hs.map HookEntry.window := by
      have hmap := congrArg (List.map HookEntry.window) hp
      rwa [List.map_map, List.map_map] at hmap
    have hap : (hs.map HookEntry.window).Pairwise Region.Disjoint := List.pairwise_map.mpr hc.apart
    rw [← hwindow] at hap
    exact List.pairwise_map.mp hap
  case enabled =>
    intro g hg hen
    obtain ⟨h, hh, heq⟩ := hold hg
    have hreads : h.patch.isEnabled → Reads m.bytes h.patch.pPatchTarget h.patch.jump :=
      hc.enabled h hh
    rw [heq] at hreads
    exact hreads hen
  case rest =>
    intro x hx hnot
    refine hc.rest x hx fun h hh => ?_
    obtain ⟨g, hg, heq⟩ := hnew hh
    have hout : g.patch.isEnabled → x ∉ g.patch.window := hnot g hg
    rw [heq] at hout
    exact hout

end Code

end Bossran
