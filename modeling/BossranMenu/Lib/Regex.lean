import Mathlib.Data.List.Basic

/-!
# Regular expressions with lookahead and back references

The backtracking semantics of ECMAScript: `run xs r st` lists the states in which `r` can leave the
input `xs` when it starts in `st`, the preferred one first. An empty iteration of a repetition is
not taken. Groups inside a repetition keep their last capture.

* `fullMatch`: the whole input matches; `search`: some part of it does.
* `mem_run_plus`: a repetition of one character class consumes any run of that class.
* `search_repeated`: a group followed by its copies is found where a block is followed by itself.
-/

namespace Ecma

inductive Regex (α : Type) where
  /-- One character. -/
  | set (p : α → Bool)
  | seq (r s : Regex α)
  /-- Any number of times, as often as possible. -/
  | star (r : Regex α)
  | group (k : Nat) (r : Regex α)
  | backref (k : Nat)
  | bol
  | eol
  /-- Negative lookahead. -/
  | notAhead (r : Regex α)

variable {α : Type}

def Regex.plus (r : Regex α) : Regex α := .seq r (.star r)

/-- `r{2,}` -/
def Regex.twoOrMore (r : Regex α) : Regex α := .seq r r.plus

/-- A position of the input and the captured groups, the latest first. -/
structure State where
  pos : Nat
  groups : List (Nat × Nat × Nat)

/-- The captured bounds of a group. -/
def State.group (st : State) (k : Nat) : Option (Nat × Nat) := st.groups.lookup k

/-- Up to `n` iterations of `f`, each of which has to consume something. -/
def iter (f : State → List State) : Nat → State → List State
  | 0, st => [st]
  | n + 1, st => ((f st).filter fun st' => st.pos < st'.pos).flatMap (iter f n) ++ [st]

def run [DecidableEq α] (xs : List α) : Regex α → State → List State
  | .set p, st =>
    match xs[st.pos]? with
    | some a => if p a then [{ st with pos := st.pos + 1 }] else []
    | none => []
  | .seq r s, st => (run xs r st).flatMap (run xs s)
  | .star r, st => iter (run xs r) (xs.length - st.pos) st
  | .group k r, st =>
    (run xs r st).map fun st' => { st' with groups := (k, st.pos, st'.pos) :: st'.groups }
  | .backref k, st =>
    match st.group k with
    | none => [st]
    | some (i, j) =>
      if ((xs.take j).drop i).isPrefixOf (xs.drop st.pos) then [{ st with pos := st.pos + (j - i) }]
      else []
  | .bol, st => if st.pos = 0 then [st] else []
  | .eol, st => if st.pos = xs.length then [st] else []
  | .notAhead r, st => if (run xs r st).isEmpty then [st] else []

/-- `regex_match`: the whole input matches. -/
def Regex.fullMatch [DecidableEq α] (r : Regex α) (xs : List α) : Bool :=
  (run xs r ⟨0, []⟩).any fun st => st.pos = xs.length

/-- `regex_search`: some part of the input matches. -/
def Regex.search [DecidableEq α] (r : Regex α) (xs : List α) : Bool :=
  (List.range (xs.length + 1)).any fun i => !(run xs r ⟨i, []⟩).isEmpty

/-! ## Spans of a class -/

section

variable {xs : List α} {p : α → Bool}

/-- The characters from one position to another are all in a class. -/
def Spans (xs : List α) (p : α → Bool) (i j : Nat) : Prop :=
  i ≤ j ∧ ∀ k, i ≤ k → k < j → ∃ a, xs[k]? = some a ∧ p a = true

theorem Spans.refl (i : Nat) : Spans xs p i i := ⟨Nat.le_refl i, fun k h1 h2 => by omega⟩

theorem Spans.trans {i j k : Nat} (h : Spans xs p i j) (h' : Spans xs p j k) : Spans xs p i k := by
  refine ⟨Nat.le_trans h.1 h'.1, fun l h1 h2 => ?_⟩
  by_cases hl : l < j
  · exact h.2 l h1 hl
  · exact h'.2 l (by omega) h2

theorem Spans.cons {i j : Nat} {a : α} (ha : xs[i]? = some a) (hp : p a = true)
    (h : Spans xs p (i + 1) j) : Spans xs p i j := by
  refine Spans.trans ⟨Nat.le_succ i, fun k h1 h2 => ⟨a, ?_, hp⟩⟩ h
  rwa [show k = i by omega]

theorem Spans.uncons {i j : Nat} (h : Spans xs p i j) (hij : i < j) :
    ∃ a, xs[i]? = some a ∧ p a = true ∧ Spans xs p (i + 1) j := by
  obtain ⟨a, ha, hp⟩ := h.2 i (Nat.le_refl i) hij
  exact ⟨a, ha, hp, hij, fun k h1 h2 => h.2 k (by omega) h2⟩

/-- A list of characters of the class, from one position to another. -/
theorem spans_iff_take_drop {i j : Nat} (hj : j ≤ xs.length) :
    Spans xs p i j ↔ i ≤ j ∧ ∀ a ∈ (xs.take j).drop i, p a = true := by
  refine and_congr_right fun hij => ⟨fun h a ha => ?_, fun h k h1 h2 => ?_⟩
  · obtain ⟨k, hk, rfl⟩ := List.mem_iff_getElem.mp ha
    simp only [List.length_drop, List.length_take] at hk
    obtain ⟨a, ha, hp⟩ := h (i + k) (by omega) (by omega)
    rw [List.getElem?_eq_getElem (by omega), Option.some.injEq] at ha
    simpa [ha] using hp
  · refine ⟨xs[k], List.getElem?_eq_getElem (by omega), h _ ?_⟩
    have hlt : k - i < ((xs.take j).drop i).length := by
      rw [List.length_drop, List.length_take]
      omega
    refine List.mem_iff_getElem.mpr ⟨k - i, hlt, ?_⟩
    simp only [List.getElem_drop, List.getElem_take]
    congr 1
    omega

theorem Spans.le_length {i j : Nat} (h : Spans xs p i j) (hij : i < j) : j ≤ xs.length := by
  obtain ⟨a, ha, -⟩ := h.2 (j - 1) (by omega) (by omega)
  obtain ⟨hlt, -⟩ := List.getElem?_eq_some_iff.mp ha
  omega

theorem State.eq_of_not_lt {st st' : State} (hs : Spans xs p st.pos st'.pos)
    (hg : st'.groups = st.groups) (hpos : ¬ st.pos < st'.pos) : st' = st := by
  obtain ⟨pos, groups⟩ := st
  obtain ⟨pos', groups'⟩ := st'
  have hle := hs.1
  simp only at hpos hle hg
  simp only [State.mk.injEq]
  exact ⟨by omega, hg⟩

end

/-! ## What a run does -/

section

variable [DecidableEq α] {xs : List α} {p : α → Bool} {st st' : State}

theorem mem_run_seq {r s : Regex α} :
    st' ∈ run xs (.seq r s) st ↔ ∃ t ∈ run xs r st, st' ∈ run xs s t :=
  List.mem_flatMap

theorem mem_run_set : st' ∈ run xs (.set p) st ↔
    ∃ a, xs[st.pos]? = some a ∧ p a = true ∧ st' = { st with pos := st.pos + 1 } := by
  simp only [run]
  split
  · rename_i a ha
    split <;> simp_all
  · rename_i ha
    simp [ha]

theorem mem_run_bol : st' ∈ run xs .bol st ↔ st.pos = 0 ∧ st' = st := by
  simp only [run]
  split <;> simp_all

theorem mem_run_eol : st' ∈ run xs .eol st ↔ st.pos = xs.length ∧ st' = st := by
  simp only [run]
  split <;> simp_all

theorem mem_run_notAhead {r : Regex α} :
    st' ∈ run xs (.notAhead r) st ↔ run xs r st = [] ∧ st' = st := by
  simp only [run]
  split <;> simp_all

/-- A character of a class, then the rest. -/
theorem mem_run_set_seq {r : Regex α} : st' ∈ run xs (.seq (.set p) r) st ↔
    ∃ a, xs[st.pos]? = some a ∧ p a = true ∧ st' ∈ run xs r { st with pos := st.pos + 1 } := by
  rw [mem_run_seq]
  constructor
  · rintro ⟨t, ht, hmem⟩
    obtain ⟨a, ha, hp, rfl⟩ := mem_run_set.mp ht
    exact ⟨a, ha, hp, hmem⟩
  · rintro ⟨a, ha, hp, hmem⟩
    exact ⟨_, mem_run_set.mpr ⟨a, ha, hp, rfl⟩, hmem⟩

/-- Where a repetition of one class can stop. -/
theorem mem_iter_set {n : Nat} (hn : xs.length ≤ st.pos + n) : st' ∈ iter (run xs (.set p)) n st ↔
    Spans xs p st.pos st'.pos ∧ st'.groups = st.groups := by
  induction n generalizing st with
  | zero =>
    rw [iter, List.mem_singleton]
    constructor
    · rintro rfl
      exact ⟨Spans.refl _, rfl⟩
    · rintro ⟨hs, hg⟩
      refine State.eq_of_not_lt hs hg fun hlt => ?_
      have := hs.le_length hlt
      omega
  | succ n ih =>
    rw [iter, List.mem_append, List.mem_singleton, List.mem_flatMap]
    constructor
    · rintro (⟨t, ht, hmem⟩ | rfl)
      · obtain ⟨a, ha, hp, rfl⟩ := mem_run_set.mp (List.mem_of_mem_filter ht)
        obtain ⟨hs, hg⟩ := (ih (by simp only; omega)).mp hmem
        exact ⟨hs.cons ha hp, hg⟩
      · exact ⟨Spans.refl _, rfl⟩
    · rintro ⟨hs, hg⟩
      by_cases hlt : st.pos < st'.pos
      · left
        obtain ⟨a, ha, hp, hs'⟩ := hs.uncons hlt
        exact ⟨{ st with pos := st.pos + 1 },
          List.mem_filter.mpr ⟨mem_run_set.mpr ⟨a, ha, hp, rfl⟩, by simp⟩,
          (ih (by simp only; omega)).mpr ⟨hs', hg⟩⟩
      · right
        exact State.eq_of_not_lt hs hg hlt

/-- Where `[p]+` can stop. -/
theorem mem_run_plus : st' ∈ run xs (.plus (.set p)) st ↔
    st.pos < st'.pos ∧ Spans xs p st.pos st'.pos ∧ st'.groups = st.groups := by
  rw [Regex.plus, mem_run_set_seq]
  constructor
  · rintro ⟨a, ha, hp, hmem⟩
    obtain ⟨hs, hg⟩ := (mem_iter_set (by simp only; omega)).mp hmem
    exact ⟨hs.1, hs.cons ha hp, hg⟩
  · rintro ⟨hlt, hs, hg⟩
    obtain ⟨a, ha, hp, hs'⟩ := hs.uncons hlt
    exact ⟨a, ha, hp, (mem_iter_set (by simp only; omega)).mpr ⟨hs', hg⟩⟩

/-- Where `[p]{2,}` can stop. -/
theorem mem_run_twoOrMore : st' ∈ run xs (.twoOrMore (.set p)) st ↔
    st.pos + 2 ≤ st'.pos ∧ Spans xs p st.pos st'.pos ∧ st'.groups = st.groups := by
  rw [Regex.twoOrMore, mem_run_set_seq]
  constructor
  · rintro ⟨a, ha, hp, hmem⟩
    obtain ⟨hlt, hs, hg⟩ := mem_run_plus.mp hmem
    exact ⟨hlt, hs.cons ha hp, hg⟩
  · rintro ⟨hlt, hs, hg⟩
    obtain ⟨a, ha, hp, hs'⟩ := hs.uncons (by omega)
    exact ⟨a, ha, hp, mem_run_plus.mpr ⟨hlt, hs', hg⟩⟩

/-- `[p]+$` from the first position. -/
theorem mem_run_line {groups : List (Nat × Nat × Nat)} :
    st' ∈ run xs (.seq (.plus (.set p)) .eol) ⟨0, groups⟩ ↔
      xs ≠ [] ∧ (∀ a ∈ xs, p a = true) ∧ st' = ⟨xs.length, groups⟩ := by
  have hall : Spans xs p 0 xs.length ↔ ∀ a ∈ xs, p a = true := by
    simp [spans_iff_take_drop (Nat.le_refl _)]
  rw [mem_run_seq]
  constructor
  · rintro ⟨t, ht, hend⟩
    obtain ⟨hlt, hs, hg⟩ := mem_run_plus.mp ht
    obtain ⟨hpos, rfl⟩ := mem_run_eol.mp hend
    rw [hpos] at hs hlt
    refine ⟨List.length_pos_iff.mp hlt, hall.mp hs, ?_⟩
    obtain ⟨pos, _⟩ := st'
    cases hpos
    cases hg
    rfl
  · rintro ⟨hne, hp, rfl⟩
    exact ⟨⟨xs.length, groups⟩,
      mem_run_plus.mpr ⟨List.length_pos_iff.mpr hne, hall.mpr hp, rfl⟩,
      mem_run_eol.mpr ⟨rfl, rfl⟩⟩

/-- A repetition can stop where it starts. -/
theorem self_mem_run_star (r : Regex α) : st ∈ run xs (.star r) st := by
  simp only [run]
  cases xs.length - st.pos <;> simp [iter]

/-! ## Searching a repeated block -/

/-- `([p]{2,})\1+` -/
def Regex.repeated (p : α → Bool) : Regex α :=
  .seq (.group 1 (.twoOrMore (.set p))) (.plus (.backref 1))

/-- The search finds a block of at least two characters of the class that is followed by itself. -/
theorem search_repeated : (Regex.repeated p).search xs = true ↔
    ∃ b : List α, 2 ≤ b.length ∧ (∀ a ∈ b, p a = true) ∧ b ++ b <:+: xs := by
  have hfound : (Regex.repeated p).search xs = true ↔
      ∃ i j, i + 2 ≤ j ∧ Spans xs p i j ∧ (xs.take j).drop i <+: xs.drop j := by
    simp only [Regex.search, List.any_eq_true, List.mem_range, Bool.not_eq_true',
      List.isEmpty_eq_false_iff_exists_mem]
    constructor
    · rintro ⟨i, -, st, hst⟩
      obtain ⟨t, ht, hst⟩ := mem_run_seq.mp hst
      obtain ⟨t, htwo, rfl⟩ := List.mem_map.mp ht
      obtain ⟨hlt, hs, -⟩ := mem_run_twoOrMore.mp htwo
      obtain ⟨u, hu, -⟩ := mem_run_seq.mp hst
      refine ⟨i, t.pos, hlt, hs, ?_⟩
      simp only [run, State.group, List.lookup_cons_self] at hu
      split at hu
      · rename_i hpre
        exact List.isPrefixOf_iff_prefix.mp hpre
      · cases hu
    · rintro ⟨i, j, hij, hs, hpre⟩
      have hj := hs.le_length (by omega)
      refine ⟨i, by omega, ⟨j + (j - i), [(1, i, j)]⟩, ?_⟩
      refine mem_run_seq.mpr ⟨⟨j, [(1, i, j)]⟩, ?_, ?_⟩
      · exact List.mem_map.mpr ⟨⟨j, []⟩, mem_run_twoOrMore.mpr ⟨hij, hs, rfl⟩, rfl⟩
      · refine mem_run_seq.mpr ⟨⟨j + (j - i), [(1, i, j)]⟩, ?_, self_mem_run_star _⟩
        simp [run, State.group, List.isPrefixOf_iff_prefix.mpr hpre]
  rw [hfound]
  constructor
  · rintro ⟨i, j, hij, hs, hpre⟩
    have hj := hs.le_length (by omega)
    refine ⟨(xs.take j).drop i, by simp; omega, ((spans_iff_take_drop hj).mp hs).2, ?_⟩
    obtain ⟨t, ht⟩ := hpre
    refine ⟨xs.take i, t, ?_⟩
    have hi : xs.take i ++ (xs.take j).drop i = xs.take j := by
      have h := List.take_append_drop i (xs.take j)
      rwa [List.take_take, Nat.min_eq_left (by omega)] at h
    rw [List.append_assoc, List.append_assoc, ht, ← List.append_assoc, hi, List.take_append_drop]
  · rintro ⟨b, hlen, hb, pre, post, rfl⟩
    have htake : ((pre ++ (b ++ b) ++ post).take (pre.length + b.length)).drop pre.length = b := by
      simp [List.take_append]
    refine ⟨pre.length, pre.length + b.length, by omega,
      (spans_iff_take_drop (by simp)).mpr ⟨by omega, by rwa [htake]⟩, ?_⟩
    rw [htake]
    exact ⟨post, by simp [List.drop_append]⟩

end

end Ecma
