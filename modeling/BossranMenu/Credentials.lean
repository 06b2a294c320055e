import BossranMenu.AntiCheat
import BossranMenu.Form3
import Mathlib.Data.Finset.Card
import Mathlib.Data.List.Forall2

/-!
# What the input checks accept (`IsValidUsername` and `IsValidPassword` in `main.cpp`)

* `isValidUsername_iff`: a user name is accepted exactly if it is in the intended language, so the
  case of its letters does not matter.
* `isValidPassword_iff`: a ran name is accepted for its length and its number of different
  characters; the format that the comment of the function describes is not looked at.
* `meetsFormat_iff`: so the function does what its comment says exactly on the ran names that have
  the format, or that the two bounds exclude.
-/

namespace Bossran

/-! ## Characters -/

def isLetter (c : BYTE) : Bool := isLower c || isUpper c

theorem isAlnum_eq (c : BYTE) : isAlnum c = (isLetter c || isDigit c) := rfl

theorem isDigit_of_not_isLetter {c : BYTE} (h : isAlnum c = true) (hl : isLetter c = false) :
    isDigit c = true := by
  rwa [isAlnum_eq, hl, Bool.false_or] at h

theorem isLetter_tolower : ∀ c : BYTE, isLetter (tolower c) = isLetter c := by decide +kernel

theorem isDigit_tolower : ∀ c : BYTE, isDigit (tolower c) = isDigit c := by decide +kernel

/-- The same character, or the same letter in the other case. -/
def SameButCase (c c' : BYTE) : Prop := c' = c ∨ isLetter c = true ∧ c' = c ^^^ 0x20

instance (c c' : BYTE) : Decidable (SameButCase c c') := inferInstanceAs (Decidable (_ ∨ _))

/-- `tolower` turns an upper case letter into the lower case one, and keeps every other character. -/
theorem tolower_spec : ∀ c : BYTE, (isUpper c = true → isLower (tolower c) = true ∧
    SameButCase (tolower c) c) ∧ (isUpper c = false → tolower c = c) := by
  decide +kernel

theorem tolower_eq : ∀ c : BYTE, tolower c = if isUpper c then c ^^^ 0x20 else c := by
  decide +kernel

theorem isLetter_of_isUpper {c : BYTE} (h : isUpper c = true) : isLetter c = true := by
  rw [isLetter, h, Bool.or_true]

theorem tolower_otherCase : ∀ c : BYTE, isLetter c = true → tolower (c ^^^ 0x20) = tolower c ∧
    isLetter (c ^^^ 0x20) = true := by
  decide +kernel

/-- The characters that `tolower` takes for the same. -/
theorem tolower_eq_iff (c c' : BYTE) : tolower c' = tolower c ↔ SameButCase c c' := by
  have hback : ∀ a : BYTE, a ^^^ 0x20 ^^^ 0x20 = a := fun a => by
    rw [BitVec.xor_assoc, BitVec.xor_self, BitVec.xor_zero]
  constructor
  · intro h
    rw [tolower_eq, tolower_eq] at h
    split at h
    · rename_i hc'
      split at h
      · rw [← hback c', h, hback]
        exact .inl rfl
      · refine .inr ⟨?_, ?_⟩
        · rw [← h]
          exact (tolower_otherCase c' (isLetter_of_isUpper hc')).2
        · rw [← h, hback]
    · split at h
      · exact .inr ⟨isLetter_of_isUpper ‹_›, h⟩
      · exact .inl h
  · rintro (rfl | ⟨hl, rfl⟩)
    · rfl
    · exact (tolower_otherCase c hl).1

theorem isDigit_eq_false : ∀ c : BYTE, isLetter c = true → isDigit c = false := by decide +kernel

theorem isWord_of_isAlnum {c : BYTE} (h : isAlnum c = true) : isWord c = true := by
  rw [isWord, h, Bool.true_or]

/-! ## Different characters -/

theorem nodup_eraseDups {α : Type} [DecidableEq α] (l : List α) : l.eraseDups.Nodup := by
  match l with
  | [] => simp
  | a :: l =>
    have hlt : (l.filter fun b => !b == a).length < l.length + 1 :=
      Nat.lt_succ_of_le (List.length_filter_le _ _)
    rw [List.eraseDups_cons, List.nodup_cons]
    exact ⟨by simp, nodup_eraseDups _⟩
termination_by l.length

/-- `std::set` keeps one of each character. -/
theorem length_eraseDups {α : Type} [DecidableEq α] (l : List α) :
    l.eraseDups.length = l.toFinset.card := by
  rw [← List.toFinset_card_of_nodup (nodup_eraseDups l)]
  congr 1
  ext a
  simp

theorem hasTooManyUniqueChars_iff {s : List BYTE} {n : Nat} :
    hasTooManyUniqueChars s n = true ↔ n < s.toFinset.card := by
  rw [hasTooManyUniqueChars, length_eraseDups, decide_eq_true_eq]

/-- One filter of a check. -/
theorem filter_eq_true {c : Prop} [Decidable c] {b : Bool} :
    (if c then false else b) = true ↔ ¬ c ∧ b = true := by
  split <;> simp_all

/-! ## User names -/

/-- The user names that the checks are meant to let through. -/
structure IntendedUsername (u : List BYTE) : Prop where
  length : 3 ≤ u.length ∧ u.length ≤ 20
  alnum : ∀ c ∈ u, isLetter c = true ∨ isDigit c = true
  letter : ∃ c ∈ u, isLetter c = true
  notGibberish : ∀ w ∈ gibberishWords, u.map tolower ≠ bytes w
  /-- No block is immediately followed by a copy of itself. -/
  noRepeat : ∀ b : List BYTE, 2 ≤ b.length → ¬ b ++ b <:+: u.map tolower
  unique : (u.map tolower).toFinset.card ≤ 10

/-- The filters of `IsValidUsername`, one by one. -/
theorem isValidUsername_filters {u : List BYTE} : isValidUsername u = true ↔
    (3 ≤ u.length ∧ u.length ≤ 20) ∧ validUsernameRegex.fullMatch u = true ∧
      u.map tolower ∉ gibberishWords.map bytes ∧
      repeatingPatternRegex.search (u.map tolower) = false ∧
      (u.map tolower).toFinset.card ≤ 10 := by
  simp only [isValidUsername, filter_eq_true, Bool.or_eq_true, decide_eq_true_eq, not_or, not_lt,
    Bool.not_eq_true', Bool.not_eq_false, List.contains_iff_mem, hasTooManyUniqueChars_iff,
    Bool.not_eq_true, and_true]

/-- Letters and digits, and not only digits: some character is a letter. -/
theorem exists_letter_iff {u : List BYTE} (h : ∀ c ∈ u, isAlnum c = true) :
    (∃ c ∈ u, isLetter c = true) ↔ ¬ ∀ c ∈ u, isDigit c = true := by
  constructor
  · rintro ⟨c, hc, hl⟩ hd
    have := hd c hc
    rw [isDigit_eq_false c hl] at this
    cases this
  · intro hd
    by_contra hl
    refine hd fun c hc => isDigit_of_not_isLetter (h c hc) ?_
    rw [← Bool.not_eq_true]
    exact fun hcl => hl ⟨c, hc, hcl⟩

/-- The search for a repeating pattern, in lower-cased letters and digits. -/
theorem search_repeatingPattern {u : List BYTE} (h : ∀ c ∈ u, isAlnum c = true) :
    repeatingPatternRegex.search (u.map tolower) = false ↔
      ∀ b : List BYTE, 2 ≤ b.length → ¬ b ++ b <:+: u.map tolower := by
  have hword : ∀ c ∈ u.map tolower, isWord c = true := by
    intro c hc
    obtain ⟨a, ha, rfl⟩ := List.mem_map.mp hc
    refine isWord_of_isAlnum ?_
    rw [isAlnum_eq, isLetter_tolower, isDigit_tolower, ← isAlnum_eq]
    exact h a ha
  have hrepeated : repeatingPatternRegex = Ecma.Regex.repeated isWord := rfl
  rw [← Bool.not_eq_true, hrepeated, Ecma.search_repeated]
  constructor
  · intro hn b hb hin
    refine hn ⟨b, hb, fun c hc => hword c (hin.subset ?_), hin⟩
    exact List.mem_append_left b hc
  · rintro hn ⟨b, hb, -, hin⟩
    exact hn b hb hin

/-- A user name is accepted exactly if it is meant to be. -/
theorem isValidUsername_iff (u : List BYTE) : isValidUsername u = true ↔ IntendedUsername u := by
  rw [isValidUsername_filters, fullMatch_validUsernameRegex]
  have halnum : (∀ c ∈ u, isAlnum c = true) ↔ ∀ c ∈ u, isLetter c = true ∨ isDigit c = true := by
    simp only [isAlnum_eq, Bool.or_eq_true]
  have hgibberish : u.map tolower ∉ gibberishWords.map bytes ↔
      ∀ w ∈ gibberishWords, u.map tolower ≠ bytes w := by
    simp only [List.mem_map, not_exists, not_and, ne_eq, eq_comm]
  constructor
  · rintro ⟨hlen, ⟨hne, ha, hd⟩, hg, hr, hu⟩
    exact {
      length := hlen
      alnum := halnum.mp ha
      letter := (exists_letter_iff ha).mpr hd
      notGibberish := hgibberish.mp hg
      noRepeat := (search_repeatingPattern ha).mp hr
      unique := hu }
  · intro h
    have ha := halnum.mpr h.alnum
    obtain ⟨c, hc, -⟩ := h.letter
    exact ⟨h.length, ⟨List.ne_nil_of_mem hc, ha, (exists_letter_iff ha).mp h.letter⟩,
      hgibberish.mpr h.notGibberish, (search_repeatingPattern ha).mpr h.noRepeat, h.unique⟩

/-- The intended language does not look at the case of a letter. -/
theorem IntendedUsername.congr {u u' : List BYTE} (heq : u'.map tolower = u.map tolower)
    (h : IntendedUsername u) : IntendedUsername u' := by
  have hlen : u'.length = u.length := by simpa using congrArg List.length heq
  have hmem : ∀ P : BYTE → Prop, (∀ c, P (tolower c) ↔ P c) →
      ((∀ c ∈ u', P c) ↔ ∀ c ∈ u, P c) ∧ ((∃ c ∈ u', P c) ↔ ∃ c ∈ u, P c) := by
    intro P hP
    have hall : ∀ v : List BYTE, (∀ c ∈ v, P c) ↔ ∀ c ∈ v.map tolower, P c := by simp [hP]
    have hex : ∀ v : List BYTE, (∃ c ∈ v, P c) ↔ ∃ c ∈ v.map tolower, P c := by simp [hP]
    exact ⟨by rw [hall u', heq, ← hall u], by rw [hex u', heq, ← hex u]⟩
  refine ⟨by rw [hlen]; exact h.length, ?_, ?_, ?_, ?_, ?_⟩
  · refine ((hmem _ fun c => ?_).1).mpr h.alnum
    rw [isLetter_tolower, isDigit_tolower]
  · refine ((hmem _ fun c => ?_).2).mpr h.letter
    rw [isLetter_tolower]
  · rw [heq]
    exact h.notGibberish
  · rw [heq]
    exact h.noRepeat
  · rw [heq]
    exact h.unique

theorem isValidUsername_congr {u u' : List BYTE} (heq : u'.map tolower = u.map tolower) :
    isValidUsername u' = isValidUsername u := by
  rw [Bool.eq_iff_iff, isValidUsername_iff, isValidUsername_iff]
  exact ⟨fun h => h.congr heq.symm, fun h => h.congr heq⟩

/-- The accepted user names are the intended ones; the case of a letter never matters. -/
theorem isValidUsername_language :
    (∀ u, isValidUsername u = true ↔ IntendedUsername u) ∧
    (∀ u u' : List BYTE, u'.map tolower = u.map tolower →
      isValidUsername u' = isValidUsername u) ∧
    ∀ u u' : List BYTE, List.Forall₂ SameButCase u u' →
      isValidUsername u' = isValidUsername u := by
  refine ⟨isValidUsername_iff, fun u u' => isValidUsername_congr, fun u u' h => ?_⟩
  apply isValidUsername_congr
  rw [← List.forall₂_eq_eq_eq, List.forall₂_map_left_iff, List.forall₂_map_right_iff]
  exact h.flip.imp fun c' c hc => (tolower_eq_iff c c').mpr hc

example : isValidUsername (bytes "Abab12") = false := by decide

/-! ## Ran names -/

/-- The format of the comment and of the input hint: a name, " Ran Ep", and a number. -/
def HasRanFormat (p : List BYTE) : Prop :=
  ∃ name ranEp number : List BYTE, p = name ++ ranEp ++ number ∧
    name ≠ [] ∧ (∀ c ∈ name, isLetter c = true) ∧
    ranEp.map tolower = (bytes " Ran Ep").map tolower ∧
    ∃ n, readDecimal number = some n ∧ 3 ≤ n ∧ n ≤ 11

/-- The bounds on the length and on the number of different characters. -/
structure WithinBounds (p : List BYTE) : Prop where
  length : 6 ≤ p.length ∧ p.length ≤ 20
  unique : p.toFinset.card ≤ 15

/-- What is accepted has the format and is within the bounds, and the other way round. -/
def MeetsFormat (p : List BYTE) : Prop :=
  (isValidPassword p = true → WithinBounds p ∧ HasRanFormat p) ∧
    (HasRanFormat p → WithinBounds p → isValidPassword p = true)

theorem isValidPassword_iff {p : List BYTE} : isValidPassword p = true ↔ WithinBounds p := by
  have hb : WithinBounds p ↔ (6 ≤ p.length ∧ p.length ≤ 20) ∧ p.toFinset.card ≤ 15 :=
    ⟨fun h => ⟨h.length, h.unique⟩, fun h => ⟨h.1, h.2⟩⟩
  simp only [hb, isValidPassword, filter_eq_true, Bool.or_eq_true, decide_eq_true_eq, not_or,
    not_lt, hasTooManyUniqueChars_iff, and_true]

/-- The function does what its comment says on the ran names of the format, and on those that a
bound excludes. -/
theorem meetsFormat_iff (p : List BYTE) : MeetsFormat p ↔ HasRanFormat p ∨ ¬ WithinBounds p := by
  rw [MeetsFormat, isValidPassword_iff]
  constructor
  · rintro ⟨h, -⟩
    by_cases hb : WithinBounds p
    · exact .inl (h hb).2
    · exact .inr hb
  · rintro (hf | hb)
    · exact ⟨fun hb => ⟨hb, hf⟩, fun _ hb => hb⟩
    · exact ⟨fun h => absurd h hb, fun _ h => absurd h hb⟩

/-- Six digits are accepted. -/
theorem not_meetsFormat_digits :
    isValidPassword (bytes "123456") = true ∧ ¬ MeetsFormat (bytes "123456") := by
  have hvalid : isValidPassword (bytes "123456") = true := by decide
  refine ⟨hvalid, fun h => ?_⟩
  obtain ⟨name, ranEp, number, heq, hne, hletters, -, -⟩ := (h.1 hvalid).2
  obtain ⟨c, name, rfl⟩ := List.exists_cons_of_ne_nil hne
  have hc : bytes "123456" = [0x31, 0x32, 0x33, 0x34, 0x35, 0x36] := by decide
  rw [hc, List.cons_append, List.cons_append, List.cons.injEq] at heq
  have hl := hletters c (List.mem_cons_self ..)
  rw [← heq.1] at hl
  exact absurd hl (by decide)

end Bossran
