import Mathlib.Algebra.Order.Field.Rat
import Mathlib.Data.Rat.Defs

/-!
# Numbers as the C library reads them

`Number` is a floating-point number whose finite values are exact. Its comparisons are those of the
language: with a NaN, all of them are false. `atof` reads the longest number at the start of a text,
as `strtod` of the C standard does; text without a number reads as 0.

* `atof_eq_of_noNumber`: what text without a number is, and that it reads as 0.
-/

namespace Atof

/-! ## Numbers -/

inductive Number where
  | fin (q : ℚ)
  | inf (negative : Bool)
  | nan
  deriving DecidableEq

namespace Number

/-- `<` -/
def lt : Number → Number → Bool
  | .nan, _ | _, .nan => false
  | .fin a, .fin b => a < b
  | .fin _, .inf negative => !negative
  | .inf negative, .fin _ => negative
  | .inf negative, .inf negative' => negative && !negative'

/-- `==` -/
def eq : Number → Number → Bool
  | .nan, _ | _, .nan => false
  | a, b => a = b

@[simp] theorem fin_lt_fin (a b : ℚ) : lt (.fin a) (.fin b) = decide (a < b) := rfl

@[simp] theorem fin_lt_inf (a : ℚ) (negative : Bool) : lt (.fin a) (.inf negative) = !negative :=
  rfl

@[simp] theorem inf_lt_fin (negative : Bool) (b : ℚ) : lt (.inf negative) (.fin b) = negative := rfl

@[simp] theorem nan_lt (b : Number) : lt .nan b = false := rfl

@[simp] theorem lt_nan (a : Number) : lt a .nan = false := by cases a <;> rfl

@[simp] theorem fin_eq_fin (a b : ℚ) : eq (.fin a) (.fin b) = decide (a = b) := by simp [eq]

@[simp] theorem inf_eq_fin (negative : Bool) (b : ℚ) : eq (.inf negative) (.fin b) = false := rfl

@[simp] theorem nan_eq (b : Number) : eq .nan b = false := rfl

end Number

/-! ## Characters -/

def isSpace (c : BitVec 8) : Bool := c == 0x20 || (0x09 ≤ c && c ≤ 0x0D)

def lower (c : BitVec 8) : BitVec 8 := if 0x41 ≤ c && c ≤ 0x5A then c + 0x20 else c

/-- The value of a decimal or hexadecimal digit. -/
def digitValue (c : BitVec 8) : Option Nat :=
  if 0x30 ≤ c && c ≤ 0x39 then some (c.toNat - 0x30)
  else if 0x61 ≤ lower c && lower c ≤ 0x66 then some ((lower c).toNat - 0x57)
  else none

def isDigit (base : Nat) (c : BitVec 8) : Bool := (digitValue c).any (· < base)

def digitsValue (base : Nat) (ds : List (BitVec 8)) : Nat :=
  ds.foldl (fun n c => n * base + (digitValue c).getD 0) 0

/-! ## Reading -/

/-- An optional sign: whether it is a minus, and what follows it. -/
def scanSign : List (BitVec 8) → Bool × List (BitVec 8)
  | 0x2D :: s => (true, s)
  | 0x2B :: s => (false, s)
  | s => (false, s)

/-- Digits with an optional point: the ones before it, the ones behind it, and what follows. -/
def scanDigits (base : Nat) (s : List (BitVec 8)) :
    List (BitVec 8) × List (BitVec 8) × List (BitVec 8) :=
  match s.dropWhile (isDigit base) with
  | 0x2E :: rest =>
    (s.takeWhile (isDigit base), rest.takeWhile (isDigit base), rest.dropWhile (isDigit base))
  | rest => (s.takeWhile (isDigit base), [], rest)

/-- An optional exponent; without digits it is not one. -/
def scanExponent (letter : BitVec 8) : List (BitVec 8) → Int
  | [] => 0
  | c :: s =>
    if lower c = letter then
      let (negative, s) := scanSign s
      let e : Int := digitsValue 10 (s.takeWhile (isDigit 10))
      if negative then -e else e
    else 0

/-- A number without its sign, unless there is no digit. -/
def scanMagnitude (base : Nat) (letter : BitVec 8) (expBase : ℚ) (s : List (BitVec 8)) :
    Option ℚ :=
  let (whole, fraction, rest) := scanDigits base s
  if whole = [] ∧ fraction = [] then none
  else
    some ((digitsValue base (whole ++ fraction) : ℚ) / base ^ fraction.length *
      expBase ^ scanExponent letter rest)

/-- `inf` -/
def infWord : List (BitVec 8) := [0x69, 0x6E, 0x66]

/-- `nan` -/
def nanWord : List (BitVec 8) := [0x6E, 0x61, 0x6E]

/-- `0x` -/
def hexPrefix : List (BitVec 8) := [0x30, 0x78]

/-- `atof`. What follows the number is not looked at. -/
def atof (text : List (BitVec 8)) : Number :=
  let (negative, s) := scanSign (text.dropWhile isSpace)
  if infWord.isPrefixOf (s.map lower) then .inf negative
  else if nanWord.isPrefixOf (s.map lower) then .nan
  else
    let magnitude :=
      if hexPrefix.isPrefixOf (s.map lower) then (scanMagnitude 16 0x70 2 (s.drop 2)).getD 0
      else (scanMagnitude 10 0x65 10 s).getD 0
    .fin (if negative then -magnitude else magnitude)

/-! ## Text without a number -/

/-- Behind the spaces and the sign there is no digit, no point with a digit, and neither of the
words. -/
structure NoNumber (text : List (BitVec 8)) : Prop where
  digit : ∀ c s, (scanSign (text.dropWhile isSpace)).2 = c :: s → isDigit 10 c = false
  point : ∀ c s, (scanSign (text.dropWhile isSpace)).2 = 0x2E :: c :: s → isDigit 10 c = false
  inf : ¬ infWord <+: (scanSign (text.dropWhile isSpace)).2.map lower
  nan : ¬ nanWord <+: (scanSign (text.dropWhile isSpace)).2.map lower

/-- No letter becomes the digit zero. -/
theorem isDigit_of_lower_eq_zero : ∀ c : BitVec 8, lower c = 0x30 → isDigit 10 c = true := by
  decide +kernel

theorem scanMagnitude_none {s : List (BitVec 8)} (hdigit : ∀ c t, s = c :: t → isDigit 10 c = false)
    (hpoint : ∀ c t, s = 0x2E :: c :: t → isDigit 10 c = false) (letter : BitVec 8) (expBase : ℚ) :
    scanMagnitude 10 letter expBase s = none := by
  have hwhole : s.takeWhile (isDigit 10) = [] := by
    cases s with
    | nil => rfl
    | cons c t => simp [hdigit c t rfl]
  have hdrop : s.dropWhile (isDigit 10) = s := by
    cases s with
    | nil => rfl
    | cons c t => simp [hdigit c t rfl]
  unfold scanMagnitude scanDigits
  rw [hwhole, hdrop]
  split
  rename_i whole fraction rest heq
  split at heq
  · rename_i t
    cases heq
    have hfraction : t.takeWhile (isDigit 10) = [] := by
      cases t with
      | nil => rfl
      | cons c t => simp [hpoint c t rfl]
    rw [hfraction, if_pos ⟨rfl, rfl⟩]
  · cases heq
    rw [if_pos ⟨rfl, rfl⟩]

/-- Text without a number reads as 0. -/
theorem atof_eq_of_noNumber {text : List (BitVec 8)} (h : NoNumber text) : atof text = .fin 0 := by
  obtain ⟨hdigit, hpoint, hinf, hnan⟩ := h
  unfold atof
  generalize scanSign (text.dropWhile isSpace) = r at hdigit hpoint hinf hnan
  obtain ⟨negative, s⟩ := r
  simp only at hdigit hpoint hinf hnan
  have hhex : ¬ hexPrefix <+: s.map lower := by
    cases s with
    | nil => simp [hexPrefix]
    | cons c t =>
      rw [List.map_cons, hexPrefix, List.cons_prefix_cons]
      rintro ⟨hc, -⟩
      have hzero := isDigit_of_lower_eq_zero c hc.symm
      rw [hdigit c t rfl] at hzero
      cases hzero
  simp only [List.isPrefixOf_iff_prefix, hinf, hnan, hhex, if_false,
    scanMagnitude_none hdigit hpoint, Option.getD_none, neg_zero, ite_self]

example : atof [] = .fin 0 := by decide

end Atof
