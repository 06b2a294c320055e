import Mathlib.Data.BitVec

/-!
# UTF-8

The machine that reads UTF-8 byte by byte. `Valid bs`: it stands between two characters after `bs`.

* `valid_append_ascii`: ASCII text on both sides of a byte string neither helps nor harms.
-/

namespace Utf8

abbrev Byte := BitVec 8

inductive State where
  /-- Between two characters. -/
  | start
  /-- `n + 1` continuation bytes are missing. -/
  | tail (n : Nat)
  /-- After the first bytes that restrict the second one. -/
  | e0 | ed | f0 | f4
  deriving DecidableEq

def between (low high b : Byte) (next : State) : Option State :=
  if low ≤ b ∧ b ≤ high then some next else none

/-- The first byte of a character. -/
def first (b : Byte) : Option State :=
  if b ≤ 0x7F then some .start
  else if b = 0xE0 then some .e0
  else if b = 0xED then some .ed
  else if b = 0xF0 then some .f0
  else if b = 0xF4 then some .f4
  else if 0xC2 ≤ b ∧ b ≤ 0xDF then some (.tail 0)
  else if 0xE1 ≤ b ∧ b ≤ 0xEF then some (.tail 1)
  else if 0xF1 ≤ b ∧ b ≤ 0xF3 then some (.tail 2)
  else none

def step : State → Byte → Option State
  | .start, b => first b
  | .tail 0, b => between 0x80 0xBF b .start
  | .tail (n + 1), b => between 0x80 0xBF b (.tail n)
  | .e0, b => between 0xA0 0xBF b (.tail 0)
  | .ed, b => between 0x80 0x9F b (.tail 0)
  | .f0, b => between 0x90 0xBF b (.tail 1)
  | .f4, b => between 0x80 0x8F b (.tail 1)

def run (q : State) (bs : List Byte) : Option State := bs.foldlM step q

/-- `bs` is UTF-8. -/
def Valid (bs : List Byte) : Prop := run .start bs = some .start

instance (bs : List Byte) : Decidable (Valid bs) := inferInstanceAs (Decidable (_ = _))

def Ascii (bs : List Byte) : Prop := ∀ b ∈ bs, b ≤ 0x7F

instance (bs : List Byte) : Decidable (Ascii bs) :=
  decidable_of_iff ((bs.all fun b => b ≤ 0x7F) = true) (by simp [Ascii])

theorem run_append (q : State) (as bs : List Byte) :
    run q (as ++ bs) = (run q as).bind fun q' => run q' bs := by
  rw [run, List.foldlM_append]
  rfl

theorem run_cons (q : State) (b : Byte) (bs : List Byte) :
    run q (b :: bs) = (step q b).bind fun q' => run q' bs := rfl

theorem run_ascii {as : List Byte} (h : Ascii as) : run .start as = some .start := by
  induction as with
  | nil => rfl
  | cons a as ih =>
    rw [run_cons, step, first, if_pos (h a (List.mem_cons_self ..)), Option.bind_some]
    exact ih fun b hb => h b (List.mem_cons_of_mem _ hb)

/-- Inside a character an ASCII byte is refused. -/
theorem step_ascii {q : State} (hq : q ≠ .start) {b : Byte} (hb : b ≤ 0x7F) : step q b = none := by
  have hlow : ∀ low : Byte, 0x80 ≤ low → ∀ high next, between low high b next = none := by
    intro low hl high next
    refine if_neg fun h => ?_
    exact absurd (BitVec.le_trans hl (BitVec.le_trans h.1 hb)) (by decide)
  cases q with
  | start => exact absurd rfl hq
  | tail n => cases n <;> exact hlow _ (by decide) _ _
  | e0 => exact hlow _ (by decide) _ _
  | ed => exact hlow _ (by decide) _ _
  | f0 => exact hlow _ (by decide) _ _
  | f4 => exact hlow _ (by decide) _ _

/-- Between ASCII texts, of which the second is not empty, exactly the UTF-8 strings are UTF-8. -/
theorem valid_append_ascii {as bs cs : List Byte} (ha : Ascii as) (hc : Ascii cs) (hne : cs ≠ []) :
    Valid (as ++ bs ++ cs) ↔ Valid bs := by
  unfold Valid
  rw [List.append_assoc, run_append, run_ascii ha, Option.bind_some, run_append]
  cases hq : run .start bs with
  | none => simp
  | some q =>
    rw [Option.bind_some]
    by_cases hs : q = .start
    · rw [hs, run_ascii hc]
    · cases cs with
      | nil => exact absurd rfl hne
      | cons c cs =>
        rw [run_cons, step_ascii hs (hc c (List.mem_cons_self ..))]
        simp [hs]

end Utf8
