import Mathlib.Data.List.Chain
import Mathlib.Data.List.Nodup

/-!
# Circular doubly linked lists

The nodes are of any type; `next` and `prev` are the two links of each node. A ring is a head and
the list of its members, in the order of `next`.

* `Linked`: consecutive nodes are linked both ways. `Linked.congr`: which links it depends on.
* `IsRing.congr`: a ring depends on the links of its nodes only.
* `IsRing.unlink`: after its neighbours are linked to each other, a member is out of the ring.
* `IsRing.neighbours`: the neighbours of a node are nodes of the ring.
-/

namespace Ring

variable {ν : Type}

/-- Consecutive nodes are linked both ways. -/
def Linked (next prev : ν → ν) (l : List ν) : Prop :=
  l.IsChain fun x y => next x = y ∧ prev y = x

/-- The ring with head `h` and members `l`. -/
def IsRing (next prev : ν → ν) (h : ν) (l : List ν) : Prop := Linked next prev (h :: (l ++ [h]))

variable {next prev next' prev' : ν → ν} {h x y : ν} {l pre post A B : List ν}

/-! ## Linked nodes -/

/-- The forward link of the last node and the backward link of the first do not count. -/
theorem Linked.congr (hl : Linked next prev l) (hn : ∀ u ∈ l.dropLast, next' u = next u)
    (hp : ∀ v ∈ l.tail, prev' v = prev v) : Linked next' prev' l := by
  induction l with
  | nil => exact .nil
  | cons u l ih =>
    cases l with
    | nil => exact .singleton u
    | cons v l =>
      obtain ⟨⟨hnext, hprev⟩, hrest⟩ := List.isChain_cons_cons.mp hl
      have hu : next' u = next u := hn u (by simp)
      have hv : prev' v = prev v := hp v (by simp)
      refine List.isChain_cons_cons.mpr ⟨⟨hu.trans hnext, hv.trans hprev⟩, ih hrest ?_ ?_⟩
      · intro w hw
        exact hn w (by simp [hw])
      · intro w hw
        exact hp w (by simp [List.mem_of_mem_tail hw])

theorem Linked.left (hl : Linked next prev (A ++ x :: B)) : Linked next prev (A ++ [x]) :=
  (List.isChain_split.mp hl).1

theorem Linked.right (hl : Linked next prev (A ++ x :: B)) : Linked next prev (x :: B) :=
  (List.isChain_split.mp hl).2

theorem Linked.links (hl : Linked next prev (A ++ x :: y :: B)) : next x = y ∧ prev y = x :=
  (List.isChain_append_cons_cons.mp hl).2.1

/-- Two linked lists, the last node of one linked to the first of the other. -/
theorem Linked.append (hA : Linked next prev (A ++ [x])) (hB : Linked next prev (y :: B))
    (hn : next x = y) (hp : prev y = x) : Linked next prev (A ++ x :: y :: B) :=
  List.isChain_append_cons_cons.mpr ⟨hA, ⟨hn, hp⟩, hB⟩

/-! ## Rings -/

theorem IsRing.congr (hr : IsRing next prev h l) (hn : ∀ u ∈ h :: l, next' u = next u)
    (hp : ∀ v ∈ h :: l, prev' v = prev v) : IsRing next' prev' h l := by
  refine Linked.congr hr (fun u hu => hn u ?_) fun v hv => hp v ?_
  · rwa [← List.cons_append, List.dropLast_concat] at hu
  · rw [List.tail_cons, List.mem_append, List.mem_singleton] at hv
    exact hv.elim (List.mem_cons_of_mem _) fun heq => heq ▸ List.mem_cons_self ..

/-- A member with its two neighbours, and what is linked on both sides of it. -/
theorem IsRing.split (hr : IsRing next prev h (pre ++ x :: post)) :
    ∃ A a b B, h :: pre = A ++ [a] ∧ post ++ [h] = b :: B ∧ prev x = a ∧ next x = b ∧
      Linked next prev (A ++ [a]) ∧ Linked next prev (b :: B) := by
  obtain ⟨A, a, hA⟩ := (List.eq_nil_or_concat (h :: pre)).resolve_left (by simp)
  obtain ⟨b, B, hB⟩ := List.exists_cons_of_ne_nil (l := post ++ [h]) (by simp)
  rw [List.concat_eq_append] at hA
  have hall : h :: (pre ++ x :: post ++ [h]) = A ++ a :: x :: b :: B := by
    rw [List.append_assoc, List.cons_append, hB, ← List.cons_append, hA, List.append_assoc]
    rfl
  have hl : Linked next prev (A ++ a :: x :: b :: B) := hall ▸ hr
  have hl' : Linked next prev ((A ++ [a]) ++ x :: b :: B) := by
    rwa [List.append_assoc]
  exact ⟨A, a, b, B, hA, hB, hl.links.2, hl'.links.1, hl.left, hl'.right.tail⟩

/-- The neighbours of a member are the head or other members. -/
theorem IsRing.neighbours (hr : IsRing next prev h (pre ++ x :: post)) :
    prev x ∈ h :: (pre ++ post) ∧ next x ∈ h :: (pre ++ post) := by
  obtain ⟨A, a, b, B, hA, hB, rfl, rfl, -, -⟩ := hr.split
  have ha : prev x ∈ h :: pre := by simp [hA]
  have hb : next x ∈ post ++ [h] := by simp [hB]
  constructor
  · rw [← List.cons_append]
    exact List.mem_append_left _ ha
  · rcases List.mem_append.mp hb with hb | hb
    · exact List.mem_cons_of_mem _ (List.mem_append_right _ hb)
    · rw [List.mem_singleton.mp hb]
      exact List.mem_cons_self ..

/-- The neighbours of the head are the first and the last member, or the head itself. -/
theorem IsRing.head (hr : IsRing next prev h l) :
    ∃ a b, (l ++ [h]).head? = some b ∧ (h :: l).getLast? = some a ∧ next h = b ∧ prev h = a := by
  obtain ⟨A, a, hA⟩ := (List.eq_nil_or_concat (h :: l)).resolve_left (by simp)
  obtain ⟨b, B, hB⟩ := List.exists_cons_of_ne_nil (l := l ++ [h]) (by simp)
  rw [List.concat_eq_append] at hA
  have hfirst : Linked next prev ([] ++ h :: b :: B) := by
    rw [List.nil_append, ← hB]
    exact hr
  have hlast : Linked next prev (A ++ a :: h :: []) := by
    have hall : h :: (l ++ [h]) = A ++ [a, h] := by
      rw [← List.cons_append, hA, List.append_assoc]
      rfl
    exact hall ▸ hr
  exact ⟨a, b, by rw [hB]; rfl, by rw [hA]; simp, hfirst.links.1, hlast.links.2⟩

/-- Following the links never leaves the ring. -/
theorem IsRing.next_mem (hr : IsRing next prev h l) (hx : x ∈ h :: l) : next x ∈ h :: l := by
  rcases List.mem_cons.mp hx with rfl | hx
  · obtain ⟨a, b, hb, -, rfl, -⟩ := hr.head
    have hmem := List.mem_of_head? hb
    rw [List.mem_append, List.mem_singleton] at hmem
    exact hmem.elim (List.mem_cons_of_mem _) fun heq => by rw [heq]; exact List.mem_cons_self ..
  · obtain ⟨pre, post, rfl⟩ := List.append_of_mem hx
    exact List.cons_subset_cons h ((List.sublist_cons_self x post).append_left pre).subset
      hr.neighbours.2

/-- Once its neighbours are linked to each other, a member is out of the ring; the others keep
their order. -/
theorem IsRing.unlink (hr : IsRing next prev h (pre ++ x :: post))
    (hnd : (h :: (pre ++ x :: post)).Nodup) (hn : next' (prev x) = next x)
    (hp : prev' (next x) = prev x)
    (hn' : ∀ u ∈ h :: (pre ++ post), u ≠ prev x → next' u = next u)
    (hp' : ∀ v ∈ h :: (pre ++ post), v ≠ next x → prev' v = prev v) :
    IsRing next' prev' h (pre ++ post) := by
  obtain ⟨A, a, b, B, hA, hB, rfl, rfl, hlA, hlB⟩ := hr.split
  have hnodes : (h :: pre ++ post).Nodup := hnd.sublist (by simp)
  have hdisj : ∀ u ∈ h :: pre, u ∉ post := fun u hu hu' =>
    (List.nodup_append.mp hnodes).2.2 u hu u hu' rfl
  have hgoal : h :: (pre ++ post ++ [h]) = A ++ prev x :: next x :: B := by
    rw [List.append_assoc, hB, ← List.cons_append, hA, List.append_assoc]
    rfl
  rw [IsRing, hgoal]
  refine Linked.append (hlA.congr (fun u hu => ?_) fun v hv => ?_)
    (hlB.congr (fun u hu => ?_) fun v hv => ?_) hn hp
  · -- before the left neighbour
    rw [List.dropLast_concat] at hu
    have hu' : u ∈ h :: pre := by
      rw [hA]
      exact List.mem_append_left _ hu
    refine hn' u (List.mem_append_left post hu') ?_
    rintro rfl
    have hndA : (A ++ [prev x]).Nodup := hA ▸ hnodes.of_append_left
    exact (List.nodup_append.mp hndA).2.2 _ hu _ (List.mem_singleton_self _) rfl
  · -- up to the left neighbour, without the head
    rw [← hA, List.tail_cons] at hv
    refine hp' v (List.mem_append_left post (List.mem_cons_of_mem h hv)) ?_
    rintro rfl
    have hb : next x ∈ post ++ [h] := hB ▸ List.mem_cons_self ..
    rcases List.mem_append.mp hb with hb | hb
    · exact hdisj _ (List.mem_cons_of_mem h hv) hb
    · rw [List.mem_singleton.mp hb] at hv
      exact (List.nodup_cons.mp hnodes.of_append_left).1 hv
  · -- from the right neighbour on, without the head
    rw [← hB, List.dropLast_concat] at hu
    refine hn' u (List.mem_append_right (h :: pre) hu) ?_
    rintro rfl
    have ha : prev x ∈ h :: pre := by simp [hA]
    exact hdisj _ ha hu
  · -- behind the right neighbour
    rw [List.tail_cons] at hv
    have hv' : v ∈ post ++ [h] := hB ▸ List.mem_cons_of_mem _ hv
    refine hp' v ?_ ?_
    · rcases List.mem_append.mp hv' with hv' | hv'
      · exact List.mem_append_right (h :: pre) hv'
      · rw [List.mem_singleton.mp hv']
        exact List.mem_cons_self ..
    · rintro rfl
      have hndB : (next x :: B).Nodup := by
        rw [← hB]
        refine List.Nodup.append (hnodes.sublist (List.sublist_append_right _ _)) (by simp) ?_
        intro u hu hh
        rw [List.mem_singleton.mp hh] at hu
        exact hdisj h (List.mem_cons_self ..) hu
      exact (List.nodup_cons.mp hndB).1 hv

end Ring
