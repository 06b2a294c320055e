import BossranMenu.Contact
import BossranMenu.Lib.Atof
import Mathlib.Tactic.NormNum

/-!
# The numeric boxes (`Form2` in `main.cpp`)

Each of the three boxes reads its text with `atof` and brings the number into its range by
comparisons and substitutions. An edit is the text of a box after a change.

* `ordinary_clamp`, `positive_clamp`: the range check of a box does its work exactly on the numbers
  that are no NaN; the one of `asval1` replaces 0 before it cuts off the negative numbers.
* `staysInRange_iff`: so the parameters stay in range exactly if no edit reads as NaN and no edit of
  `asval1` reads as negative.
-/

namespace Bossran

open Atof

inductive NumberBox where
  | lrval | asval1 | csval
  deriving DecidableEq

/-- The numbers that the injected code reads. -/
structure Parameters where
  lrval : Number
  asval1 : Number
  csval : Number

def Parameters.init : Parameters := ⟨.fin 0, .fin 1, .fin 0⟩

/-- The two comparisons that all boxes make. -/
def clamp (newValue : Number) : Number :=
  let newValue := if newValue.lt (.fin 0) then .fin 0 else newValue
  if (Number.fin 999).lt newValue then .fin 999 else newValue

/-- The comparison that the box of `asval1` makes before them. -/
def orDefault (newValue : Number) : Number := if newValue.eq (.fin 0) then .fin 1 else newValue

/-- A box after a change. -/
structure Edit where
  box : NumberBox
  text : List BYTE

def Parameters.edit (p : Parameters) (e : Edit) : Parameters :=
  match e.box with
  | .lrval => { p with lrval := clamp (atof e.text) }
  | .asval1 => { p with asval1 := clamp (orDefault (atof e.text)) }
  | .csval => { p with csval := clamp (atof e.text) }

def edited (es : List Edit) : Parameters := es.foldl Parameters.edit .init

/-- An ordinary number in `[0, 999]`. -/
def Ordinary (v : Number) : Prop := ∃ q : ℚ, v = .fin q ∧ 0 ≤ q ∧ q ≤ 999

/-- An ordinary number in `(0, 999]`. -/
def Positive (v : Number) : Prop := ∃ q : ℚ, v = .fin q ∧ 0 < q ∧ q ≤ 999

structure InRange (p : Parameters) : Prop where
  lrval : Ordinary p.lrval
  asval1 : Positive p.asval1
  csval : Ordinary p.csval

/-- The parameters are in range after every edit, and text that reads as 0 or has no number gives
`asval1` its default. -/
structure StaysInRange (es : List Edit) : Prop where
  inRange : ∀ pre, pre <+: es → InRange (edited pre)
  default : ∀ pre text, pre ++ [⟨.asval1, text⟩] <+: es → atof text = .fin 0 ∨ NoNumber text →
    (edited (pre ++ [⟨.asval1, text⟩])).asval1 = .fin 1

/-- What the text reads as is a number that the comparisons of its box bring into range. -/
def Edit.Clampable (e : Edit) : Prop :=
  atof e.text ≠ .nan ∧ (e.box = .asval1 → (atof e.text).lt (.fin 0) = false)

/-! ## The comparisons -/

@[simp] theorem clamp_nan : clamp .nan = .nan := rfl

@[simp] theorem clamp_inf (negative : Bool) :
    clamp (.inf negative) = if negative then .fin 0 else .fin 999 := by
  cases negative <;> norm_num [clamp]

theorem clamp_fin (q : ℚ) :
    clamp (.fin q) = .fin (if q < 0 then 0 else if 999 < q then 999 else q) := by
  unfold clamp
  by_cases h0 : q < 0
  · have h999 : ¬ (999 : ℚ) < 0 := by norm_num
    simp [h0, h999]
  · by_cases h999 : 999 < q <;> simp [h0, h999]

/-- What the comparisons leave is in range, unless it is a NaN: then both of them are false. -/
theorem ordinary_clamp (v : Number) : Ordinary (clamp v) ↔ v ≠ .nan := by
  cases v with
  | nan => simp [Ordinary]
  | inf negative =>
    refine iff_of_true ?_ (by simp)
    cases negative
    · exact ⟨999, by simp, by norm_num, le_refl _⟩
    · exact ⟨0, by simp, le_refl _, by norm_num⟩
  | fin q =>
    refine iff_of_true ⟨_, clamp_fin q, ?_, ?_⟩ (by simp)
    · split_ifs with h0 h999
      · exact le_refl _
      · norm_num
      · exact not_lt.mp h0
    · split_ifs with h0 h999
      · norm_num
      · exact le_refl _
      · exact not_lt.mp h999

/-- The box of `asval1` replaces 0 by 1 before a negative number becomes 0. -/
theorem positive_clamp (v : Number) :
    Positive (clamp (orDefault v)) ↔ v ≠ .nan ∧ v.lt (.fin 0) = false := by
  cases v with
  | nan => simp [Positive, orDefault]
  | inf negative =>
    cases negative with
    | false =>
      refine iff_of_true ⟨999, ?_, by norm_num, le_refl _⟩ (by simp)
      simp [orDefault]
    | true =>
      refine iff_of_false ?_ (by simp)
      rintro ⟨q, hq, hpos, -⟩
      simp only [orDefault, Number.inf_eq_fin, Bool.false_eq_true, if_false, clamp_inf, if_true,
        Number.fin.injEq] at hq
      exact absurd hpos (hq ▸ lt_irrefl 0)
  | fin q =>
    rcases lt_trichotomy q 0 with hneg | rfl | hpos
    · refine iff_of_false ?_ (by simp [hneg])
      rintro ⟨r, hr, hpos, -⟩
      simp only [orDefault, Number.fin_eq_fin, hneg.ne, decide_false, Bool.false_eq_true, if_false,
        clamp_fin, hneg, if_true, Number.fin.injEq] at hr
      exact absurd hpos (hr ▸ lt_irrefl 0)
    · refine iff_of_true ⟨1, ?_, by norm_num, by norm_num⟩ (by simp)
      have h1 : ¬ (1 : ℚ) < 0 := by norm_num
      have h999 : ¬ (999 : ℚ) < 1 := by norm_num
      simp [orDefault, clamp_fin, h1, h999]
    · refine iff_of_true ?_ (by simp [hpos.le])
      have hv : orDefault (.fin q) = .fin q := by simp [orDefault, hpos.ne']
      rw [hv, clamp_fin, if_neg hpos.le.not_gt]
      refine ⟨_, rfl, ?_, ?_⟩
      · split_ifs
        · norm_num
        · exact hpos
      · split_ifs with h999
        · exact le_refl _
        · exact not_lt.mp h999

theorem clamp_orDefault_zero : clamp (orDefault (.fin 0)) = .fin 1 := by
  have h1 : ¬ (1 : ℚ) < 0 := by norm_num
  have h999 : ¬ (999 : ℚ) < 1 := by norm_num
  simp [orDefault, clamp_fin, h1, h999]

/-! ## Edits -/

theorem inRange_init : InRange .init where
  lrval := ⟨0, rfl, le_refl _, by norm_num⟩
  asval1 := ⟨1, rfl, by norm_num, by norm_num⟩
  csval := ⟨0, rfl, le_refl _, by norm_num⟩

/-- An edit keeps the parameters in range exactly if the comparisons of its box reach its text. -/
theorem inRange_edit {p : Parameters} (h : InRange p) (e : Edit) :
    InRange (p.edit e) ↔ e.Clampable := by
  obtain ⟨hlr, has, hcs⟩ := h
  obtain ⟨box, text⟩ := e
  have hlrval := ordinary_clamp (atof text)
  have hasval1 := positive_clamp (atof text)
  cases box with
  | lrval =>
    simp only [Edit.Clampable, reduceCtorEq, false_implies, and_true, ← hlrval]
    exact ⟨fun h => h.lrval, fun h => ⟨h, has, hcs⟩⟩
  | asval1 =>
    simp only [Edit.Clampable, true_implies, ← hasval1]
    exact ⟨fun h => h.asval1, fun h => ⟨hlr, h, hcs⟩⟩
  | csval =>
    simp only [Edit.Clampable, reduceCtorEq, false_implies, and_true, ← hlrval]
    exact ⟨fun h => h.csval, fun h => ⟨hlr, has, h⟩⟩

theorem edited_concat (es : List Edit) (e : Edit) : edited (es ++ [e]) = (edited es).edit e :=
  List.foldl_concat ..

/-- Text that reads as 0, the empty one for example, gives `asval1` its default, whatever came
before. -/
theorem edited_default {pre : List Edit} {text : List BYTE}
    (h : atof text = .fin 0 ∨ NoNumber text) :
    (edited (pre ++ [⟨.asval1, text⟩])).asval1 = .fin 1 := by
  have hzero : atof text = .fin 0 := h.elim id atof_eq_of_noNumber
  rw [edited_concat]
  simp only [Parameters.edit, hzero]
  exact clamp_orDefault_zero

/-- The parameters stay in range exactly if no edit reads as NaN and no edit of `asval1` reads as
negative. -/
theorem staysInRange_iff (es : List Edit) : StaysInRange es ↔ ∀ e ∈ es, e.Clampable := by
  constructor
  · intro h e he
    obtain ⟨pre, post, rfl⟩ := List.append_of_mem he
    have hpre := h.inRange pre (List.prefix_append ..)
    have hnext := h.inRange (pre ++ [e]) ⟨post, by simp⟩
    rw [edited_concat] at hnext
    exact (inRange_edit hpre e).mp hnext
  · intro h
    refine ⟨fun pre hpre => ?_, fun pre text _ hz => edited_default hz⟩
    have hclamp : ∀ e ∈ pre, e.Clampable := fun e he => h e (hpre.subset he)
    clear hpre h
    induction pre using List.reverseRecOn with
    | nil => exact inRange_init
    | append_singleton pre e ih =>
      rw [edited_concat]
      have hp := ih fun e' he' => hclamp e' (List.mem_append_left _ he')
      exact (inRange_edit hp e).mpr (hclamp e (by simp))

theorem atof_minusFive : atof (bytes "-5") = .fin (-5) := by decide +kernel

theorem atof_nan : atof (bytes "nan") = .nan := by decide +kernel

/-- Minus five in the box of `asval1` becomes 0. -/
theorem edited_minusFive : (edited [⟨.asval1, bytes "-5"⟩]).asval1 = .fin 0 := by
  have hstep : (edited [⟨.asval1, bytes "-5"⟩]).asval1 = clamp (orDefault (.fin (-5))) :=
    congrArg (fun v => clamp (orDefault v)) atof_minusFive
  rw [hstep, orDefault, Number.fin_eq_fin]
  norm_num [clamp_fin]

/-- A negative number in the box of `asval1` ends at 0, and a NaN passes all comparisons. -/
theorem not_staysInRange_minusFive :
    (¬ StaysInRange [⟨.asval1, bytes "-5"⟩] ∧
      (edited [⟨.asval1, bytes "-5"⟩]).asval1 = .fin 0) ∧
    ¬ StaysInRange [⟨.lrval, bytes "nan"⟩] ∧
      (edited [⟨.lrval, bytes "nan"⟩]).lrval = .nan := by
  have hnan : (edited [⟨.lrval, bytes "nan"⟩]).lrval = .nan := congrArg clamp atof_nan
  refine ⟨⟨fun h => ?_, edited_minusFive⟩, fun h => ?_, hnan⟩
  · obtain ⟨q, hq, hpos, -⟩ := (h.inRange _ List.prefix_rfl).asval1
    rw [edited_minusFive] at hq
    cases hq
    exact lt_irrefl 0 hpos
  · obtain ⟨q, hq, -⟩ := (h.inRange _ List.prefix_rfl).lrval
    rw [hnan] at hq
    cases hq

end Bossran
