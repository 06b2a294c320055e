import Mathlib.Data.List.Nodup

/-!
# Singly linked lists that end with a null link

The nodes are of any type; `next` is the link of each node. `Chain next null p l`: the list at `p`
has the nodes `l`, in the order of the links.

* `Chain.congr`: which links a chain depends on. `Chain.push`, `Chain.pop`, `Chain.unlink`.
* `walk`: the loop that follows the links to the first node with a property. It remembers the node
  before (`walk_found`, `walk_notFound`).
-/

namespace LinkedList

variable {ν : Type}

/-- The list at `p` has the nodes `l`. -/
def Chain (next : ν → ν) (null : ν) : ν → List ν → Prop
  | p, [] => p = null
  | p, x :: l => p = x ∧ x ≠ null ∧ Chain next null (next x) l

variable {next next' : ν → ν} {null p x y : ν} {l pre post : List ν}

theorem Chain.congr (h : Chain next null p l) (hn : ∀ y ∈ l, next' y = next y) :
    Chain next' null p l := by
  induction l generalizing p with
  | nil => exact h
  | cons x l ih =>
    obtain ⟨hp, hx, hl⟩ := h
    refine ⟨hp, hx, ?_⟩
    rw [hn x (List.mem_cons_self ..)]
    exact ih hl fun y hy => hn y (List.mem_cons_of_mem _ hy)

theorem Chain.ne_null (h : Chain next null p l) : ∀ y ∈ l, y ≠ null := by
  induction l generalizing p with
  | nil => nofun
  | cons x l ih =>
    intro y hy
    rcases List.mem_cons.mp hy with rfl | hy
    · exact h.2.1
    · exact ih h.2.2 y hy

/-- The link to a chain is null exactly when it has no nodes. -/
theorem Chain.eq_null (h : Chain next null p l) : p = null ↔ l = [] := by
  cases l with
  | nil => exact ⟨fun _ => rfl, fun _ => h⟩
  | cons x l => exact ⟨fun hp => absurd (h.1.symm.trans hp) h.2.1, nofun⟩

/-- A new first node. -/
theorem Chain.push (h : Chain next null p l) (hx : x ≠ null) (hnx : next' x = p)
    (hn : ∀ y ∈ l, next' y = next y) : Chain next' null x (x :: l) := by
  refine ⟨rfl, hx, ?_⟩
  rw [hnx]
  exact h.congr hn

/-- Without its first node. -/
theorem Chain.pop (h : Chain next null p (x :: l)) : Chain next null (next x) l := h.2.2

/-- The node behind `y` is taken out. -/
theorem Chain.unlink (h : Chain next null p (pre ++ y :: x :: post)) (hny : next' y = next x)
    (hn : ∀ z ∈ pre ++ post, next' z = next z) : Chain next' null p (pre ++ y :: post) := by
  induction pre generalizing p with
  | nil =>
    obtain ⟨hp, hy, -, -, hpost⟩ := h
    refine ⟨hp, hy, ?_⟩
    rw [hny]
    exact hpost.congr hn
  | cons z pre ih =>
    obtain ⟨hp, hz, hrest⟩ := h
    refine ⟨hp, hz, ?_⟩
    rw [hn z (List.mem_cons_self ..)]
    exact ih hrest fun w hw => hn w (List.mem_cons_of_mem _ hw)

/-! ## Walking along a chain -/

section Walk

variable [DecidableEq ν]

/-- At most `fuel` rounds of the loop at `p`, the node before being `prev`: the first node that is
`found` and the one before it, or the last node and null. -/
def walk (next : ν → ν) (null : ν) (found : ν → Bool) : Nat → ν → ν → Option (ν × ν)
  | 0, _, _ => none
  | fuel + 1, prev, p =>
    if p = null then some (prev, null)
    else if found p then some (prev, p)
    else walk next null found fuel p (next p)

variable (found : ν → Bool) (fuel : Nat) (prev : ν)

theorem walk_found (h : Chain next null p (pre ++ x :: post)) (hpre : ∀ y ∈ pre, ¬ found y)
    (hx : found x) (hfuel : pre.length < fuel) :
    walk next null found fuel prev p = some ((prev :: pre).getLast (List.cons_ne_nil _ _), x) := by
  induction pre generalizing p prev fuel with
  | nil =>
    obtain ⟨rfl, hx', -⟩ := h
    obtain ⟨fuel, rfl⟩ := Nat.exists_eq_succ_of_ne_zero (Nat.ne_of_gt hfuel)
    rw [walk, if_neg hx', if_pos hx]
    rfl
  | cons y pre ih =>
    obtain ⟨rfl, hy, hrest⟩ := h
    obtain ⟨fuel, rfl⟩ := Nat.exists_eq_succ_of_ne_zero (Nat.ne_of_gt (Nat.zero_lt_of_lt hfuel))
    rw [walk, if_neg hy, if_neg (hpre p (List.mem_cons_self ..)),
      ih _ _ hrest (fun z hz => hpre z (List.mem_cons_of_mem _ hz)) (Nat.lt_of_succ_lt_succ hfuel),
      List.getLast_cons (List.cons_ne_nil _ _)]

theorem walk_notFound (h : Chain next null p l) (hl : ∀ y ∈ l, ¬ found y)
    (hfuel : l.length < fuel) :
    walk next null found fuel prev p =
      some ((prev :: l).getLast (List.cons_ne_nil _ _), null) := by
  induction l generalizing p prev fuel with
  | nil =>
    obtain ⟨fuel, rfl⟩ := Nat.exists_eq_succ_of_ne_zero (Nat.ne_of_gt hfuel)
    rw [walk, if_pos (show p = null from h)]
    rfl
  | cons y l ih =>
    obtain ⟨rfl, hy, hrest⟩ := h
    obtain ⟨fuel, rfl⟩ := Nat.exists_eq_succ_of_ne_zero (Nat.ne_of_gt (Nat.zero_lt_of_lt hfuel))
    rw [walk, if_neg hy, if_neg (hl p (List.mem_cons_self ..)),
      ih _ _ hrest (fun z hz => hl z (List.mem_cons_of_mem _ hz)) (Nat.lt_of_succ_lt_succ hfuel),
      List.getLast_cons (List.cons_ne_nil _ _)]

end Walk

end LinkedList
