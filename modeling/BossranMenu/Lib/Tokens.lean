import Mathlib.Data.List.Infix

/-!
# Tokens

The tokens of a list are its maximal runs of symbols that satisfy `p`.

* `mem_tokens_iff`: a token is a non-empty run of such symbols with none of them beside it.
* `infix_iff_exists_token`: a run of such symbols occurs in the list exactly if it occurs in one of
  the tokens.
-/

namespace Tokens

variable {β : Type} {p : β → Bool}

/-- The tokens of a list, with the token that is being read. -/
def tokensFrom (p : β → Bool) : List β → List β → List (List β)
  | token, [] => if token.isEmpty then [] else [token]
  | token, b :: s =>
    if p b then tokensFrom p (token ++ [b]) s
    else if token.isEmpty then tokensFrom p [] s else token :: tokensFrom p [] s

def tokens (p : β → Bool) (s : List β) : List (List β) := tokensFrom p [] s

/-- `t` stands in `s` with no symbol of a token on either side. -/
def WholeIn (p : β → Bool) (t s : List β) : Prop :=
  ∃ pre post, s = pre ++ t ++ post ∧ (∀ b ∈ pre.getLast?, p b = false) ∧
    ∀ b ∈ post.head?, p b = false

/-! ## One symbol that is in no token -/

/-- An occurrence that does not contain a symbol lies in front of it or behind it. -/
theorem occurrence_cases {b : β} {t l s pre post : List β} (hb : b ∉ t)
    (h : l ++ b :: s = pre ++ t ++ post) :
    (∃ post', l = pre ++ t ++ post' ∧ post = post' ++ b :: s) ∨
      ∃ pre', s = pre' ++ t ++ post ∧ pre = l ++ b :: pre' := by
  rw [List.append_assoc] at h
  rcases List.append_eq_append_iff.mp h with ⟨u, rfl, hu⟩ | ⟨u, rfl, hu⟩
  · rcases List.cons_eq_append_iff.mp hu with ⟨rfl, htp⟩ | ⟨u, rfl, hs⟩
    · rcases List.append_eq_cons_iff.mp htp with ⟨rfl, hpost⟩ | ⟨t, rfl, -⟩
      · exact .inl ⟨[], by simp, hpost⟩
      · exact absurd (List.mem_cons_self ..) hb
    · exact .inr ⟨u, by rw [hs, List.append_assoc], rfl⟩
  · rcases List.append_eq_append_iff.mp hu.symm with ⟨v, rfl, hv⟩ | ⟨v, rfl, hv⟩
    · rcases List.cons_eq_append_iff.mp hv with ⟨rfl, hpost⟩ | ⟨v, rfl, -⟩
      · exact .inl ⟨[], by simp, hpost⟩
      · exact absurd (by simp) hb
    · exact .inl ⟨v, by rw [List.append_assoc], hv⟩

/-- A symbol in no token is in no run. -/
theorem notMem_of_all {b : β} {t : List β} (ht : ∀ c ∈ t, p c = true) (hb : p b = false) : b ∉ t :=
  fun h => by simp [ht b h] at hb

theorem infix_append_cons_iff {b : β} {t l s : List β} (ht : ∀ c ∈ t, p c = true)
    (hb : p b = false) : t <:+: l ++ b :: s ↔ t <:+: l ∨ t <:+: s := by
  constructor
  · rintro ⟨pre, post, h⟩
    rcases occurrence_cases (notMem_of_all ht hb) h.symm with ⟨u, rfl, -⟩ | ⟨u, rfl, -⟩
    · exact .inl (List.infix_append ..)
    · exact .inr (List.infix_append ..)
  · rintro (h | h)
    · exact h.trans (List.prefix_append l _).isInfix
    · exact (List.infix_cons h).trans (List.suffix_append l _).isInfix

theorem wholeIn_append_cons_iff {b : β} {t l s : List β} (ht : ∀ c ∈ t, p c = true)
    (hb : p b = false) : WholeIn p t (l ++ b :: s) ↔ WholeIn p t l ∨ WholeIn p t s := by
  constructor
  · rintro ⟨pre, post, h, hpre, hpost⟩
    rcases occurrence_cases (notMem_of_all ht hb) h with ⟨u, rfl, rfl⟩ | ⟨u, rfl, rfl⟩
    · refine .inl ⟨pre, u, rfl, hpre, fun c hc => hpost c ?_⟩
      rw [List.head?_append, Option.mem_def.mp hc]
      rfl
    · refine .inr ⟨u, post, rfl, fun c hc => hpre c ?_, hpost⟩
      rw [List.getLast?_append, List.getLast?_cons, Option.mem_def.mp hc]
      rfl
  · rintro (⟨pre, post, rfl, hpre, hpost⟩ | ⟨pre, post, rfl, hpre, hpost⟩)
    · refine ⟨pre, post ++ b :: s, by simp, hpre, fun c hc => ?_⟩
      cases post with
      | nil =>
        obtain rfl : b = c := by simpa using hc
        exact hb
      | cons d post => exact hpost c hc
    · refine ⟨l ++ b :: pre, post, by simp, fun c hc => ?_, hpost⟩
      rw [List.getLast?_append, List.getLast?_cons] at hc
      cases hlast : pre.getLast? with
      | none =>
        obtain rfl : b = c := by simpa [hlast] using hc
        exact hb
      | some d =>
        obtain rfl : d = c := by simpa [hlast] using hc
        exact hpre d hlast

/-- In a run of `p` symbols only the whole of it has no symbol of a token beside it. -/
theorem wholeIn_all_iff {t l : List β} (hl : ∀ c ∈ l, p c = true) : WholeIn p t l ↔ t = l := by
  constructor
  · rintro ⟨pre, post, rfl, hpre, hpost⟩
    have hnil : pre = [] := by
      by_contra h
      have := hpre _ (List.getLast?_eq_some_getLast h)
      simp [hl _ (List.mem_append_left _ (List.mem_append_left _ (List.getLast_mem h)))] at this
    have hnil' : post = [] := by
      by_contra h
      have := hpost _ (List.head?_eq_some_head h)
      simp [hl _ (List.mem_append_right _ (List.head_mem h))] at this
    simp [hnil, hnil']
  · rintro rfl
    exact ⟨[], [], by simp, by simp, by simp⟩

/-! ## The tokens of a list -/

/-- A property that splits at every symbol outside the tokens holds of a list exactly if it holds
of one of the tokens. -/
theorem exists_tokensFrom_iff {Q : List β → Prop} (hnil : ¬ Q [])
    (hsplit : ∀ {b l s}, p b = false → (Q (l ++ b :: s) ↔ Q l ∨ Q s)) (token s : List β) :
    (∃ u ∈ tokensFrom p token s, Q u) ↔ Q (token ++ s) := by
  induction s generalizing token with
  | nil =>
    rw [tokensFrom, List.append_nil]
    cases token with
    | nil => simpa using hnil
    | cons c token => simp
  | cons b s ih =>
    rw [tokensFrom]
    by_cases hb : p b = true
    · rw [if_pos hb, ih, List.append_assoc]
      rfl
    · rw [if_neg hb, hsplit (Bool.eq_false_iff.mpr hb), ← List.nil_append s, ← ih []]
      cases token with
      | nil => simp [hnil]
      | cons c token => simp

theorem exists_token_iff {Q : List β → Prop} (hnil : ¬ Q [])
    (hsplit : ∀ {b l s}, p b = false → (Q (l ++ b :: s) ↔ Q l ∨ Q s)) (s : List β) :
    (∃ u ∈ tokens p s, Q u) ↔ Q s :=
  exists_tokensFrom_iff hnil hsplit [] s

/-- A token consists of symbols of tokens. -/
theorem all_of_mem_tokens {u s : List β} (h : u ∈ tokens p s) : ∀ c ∈ u, p c = true := by
  have hfrom : ∀ (s token : List β), (∀ c ∈ token, p c = true) →
      ∀ u ∈ tokensFrom p token s, ∀ c ∈ u, p c = true := by
    intro s
    induction s with
    | nil =>
      intro token htoken u hu
      rw [tokensFrom] at hu
      split at hu
      · cases hu
      · rwa [List.mem_singleton.mp hu]
    | cons b s ih =>
      intro token htoken u hu
      rw [tokensFrom] at hu
      split at hu
      · rename_i hb
        refine ih (token ++ [b]) (fun c hc => ?_) u hu
        rcases List.mem_append.mp hc with hc | hc
        · exact htoken c hc
        · rwa [List.mem_singleton.mp hc]
      · split at hu
        · exact ih [] (fun c hc => by cases hc) u hu
        · rcases List.mem_cons.mp hu with rfl | hu
          · exact htoken
          · exact ih [] (fun c hc => by cases hc) u hu
  exact hfrom s [] (fun c hc => by cases hc) u h

/-- A run of symbols of tokens stands alone in the list exactly if it is one of the tokens. -/
theorem mem_tokens_iff {t s : List β} (hne : t ≠ []) (ht : ∀ c ∈ t, p c = true) :
    t ∈ tokens p s ↔ WholeIn p t s := by
  have hnil : ¬ WholeIn p t [] := fun h => hne ((wholeIn_all_iff (by simp)).mp h)
  rw [← exists_token_iff hnil (wholeIn_append_cons_iff ht)]
  constructor
  · exact fun h => ⟨t, h, (wholeIn_all_iff ht).mpr rfl⟩
  · rintro ⟨u, hu, hw⟩
    rwa [(wholeIn_all_iff (all_of_mem_tokens hu)).mp hw]

/-- A run of symbols of tokens occurs in the list exactly if it occurs in one of the tokens. -/
theorem infix_iff_exists_token {t s : List β} (hne : t ≠ []) (ht : ∀ c ∈ t, p c = true) :
    t <:+: s ↔ ∃ u ∈ tokens p s, t <:+: u := by
  refine (exists_token_iff (Q := fun s => t <:+: s) (fun h => hne ?_) ?_ s).symm
  · exact List.eq_nil_of_infix_nil h
  · exact fun hb => infix_append_cons_iff ht hb

end Tokens
