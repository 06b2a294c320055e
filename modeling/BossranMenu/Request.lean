import BossranMenu.Form3
import BossranMenu.Lib.Json

/-!
# The activation request as a JSON document

`SendLoginRequest` puts the three inputs into the text of a JSON document as they are.
`WellFormed doc username password hwid`: the document decodes to one embed whose fields have the
three values.

* `run_postData`: what the decoder makes of the document, if the password stays in its string.
* `plain_of_wellFormed`: a quote or a backslash in the password costs characters of the field.
* `postData_wellFormed_iff`: with an accepted user name and an HWID over its alphabet, the document
  is well formed exactly if the password is UTF-8 without control characters, quotes and
  backslashes. `isValidPassword` looks at none of these.
-/

namespace Bossran

open Json

/-- The alphabet of a SID: letters, digits and `-`. -/
def isSidChar (c : BYTE) : Bool := isAlnum c || c == 0x2D

/-- The values of the fields of the one embed of a request. -/
def fieldValues (j : Value) : Option (List (List BYTE)) := do
  let embeds ← j.member? (bytes "embeds")
  match ← embeds.items? with
  | [embed] =>
    let fields ← embed.member? (bytes "fields")
    (← fields.items?).mapM fun f => do (← f.member? (bytes "value")).str?
  | _ => none

/-- The document is JSON and has one embed with the three values as its fields. -/
def WellFormed (doc username password hwid : List BYTE) : Prop :=
  ∃ j, decode doc = some j ∧ fieldValues j = some [username, password, hwid]

/-! ## The document around the inputs -/

/-- A field of the embed. -/
def field (name : String) (value : List BYTE) (isInline : Bool) : Value :=
  .obj [(bytes "name", .str (bytes name)), (bytes "value", .str value),
    (bytes "inline", .bool isInline)]

/-- The open arrays and objects in the value of a field, after the fields `fields`. -/
def openFields (fields : List Value) (name : String) : List Frame :=
  [.obj [(bytes "name", .str (bytes name))] (bytes "value"), .arr fields,
    .obj [(bytes "title", .str (bytes "Activation Request"))] (bytes "fields"), .arr [],
    .obj [(bytes "content", .str [])] (bytes "embeds")]

/-- In the string of the value of a field. -/
def inValue (fields : List Value) (name : String) (acc : List BYTE) : State :=
  ⟨.str false .none acc, openFields fields name⟩

/-- The decoded request. -/
def request (username password hwid : List BYTE) : Value :=
  .obj [(bytes "content", .str []),
    (bytes "embeds", .arr [.obj [(bytes "title", .str (bytes "Activation Request")),
      (bytes "fields", .arr [field "In Game Name" username true, field "Name of Ran" password true,
        field "HWID" hwid false])]])]

set_option maxRecDepth 10000 in
theorem run_postDataUsername :
    run ⟨.value, []⟩ (text postDataUsername) = some (inValue [] "In Game Name" []) := rfl

set_option maxRecDepth 10000 in
theorem run_postDataPassword (username : List BYTE) :
    run (inValue [] "In Game Name" username) (text postDataPassword) =
      some (inValue [field "In Game Name" username true] "Name of Ran" []) := rfl

set_option maxRecDepth 10000 in
theorem run_postDataHwid (fields : List Value) (password : List BYTE) :
    run (inValue fields "Name of Ran" password) (text postDataHwid) =
      some (inValue (fields ++ [field "Name of Ran" password true]) "HWID" []) := rfl

set_option maxRecDepth 10000 in
theorem run_postDataEnd (fields : List Value) (hwid : List BYTE) :
    run (inValue fields "HWID" hwid) (text postDataEnd) =
      some ⟨.done (.obj [(bytes "content", .str []),
        (bytes "embeds", .arr [.obj [(bytes "title", .str (bytes "Activation Request")),
          (bytes "fields", .arr (fields ++ [field "HWID" hwid false]))]])]), []⟩ := rfl

/-! ## The inputs -/

theorem plain_of_alnum {c : BYTE} (h : isAlnum c = true) : Plain c := by
  unfold Plain
  simp only [isAlnum, isLower, isUpper, isDigit, Bool.or_eq_true, Bool.and_eq_true,
    decide_eq_true_eq] at h
  bv_omega

theorem ascii_of_alnum {c : BYTE} (h : isAlnum c = true) : c ≤ 0x7F := by
  simp only [isAlnum, isLower, isUpper, isDigit, Bool.or_eq_true, Bool.and_eq_true,
    decide_eq_true_eq] at h
  bv_omega

theorem plain_of_isSidChar {c : BYTE} (h : isSidChar c = true) : Plain c := by
  rcases Bool.or_eq_true_iff.mp h with h | h
  · exact plain_of_alnum h
  · rw [eq_of_beq h]
    decide

theorem ascii_of_isSidChar {c : BYTE} (h : isSidChar c = true) : c ≤ 0x7F := by
  rcases Bool.or_eq_true_iff.mp h with h | h
  · exact ascii_of_alnum h
  · rw [eq_of_beq h]
    decide

/-! ## The encoding -/

theorem ascii_text : ∀ lines ∈ [postDataUsername, postDataPassword, postDataHwid, postDataEnd],
    Utf8.Ascii (text lines) := by
  decide +kernel

theorem text_postDataEnd_ne_nil : text postDataEnd ≠ [] := List.cons_ne_nil _ _

/-- The document around the password. -/
theorem postData_eq (username password hwid : List BYTE) :
    postData username password hwid =
      text postDataUsername ++ username ++ text postDataPassword ++ password ++
        (text postDataHwid ++ hwid ++ text postDataEnd) := by
  simp only [postData, List.append_assoc]

/-- The document is UTF-8 exactly if the password is. -/
theorem valid_postData {username password hwid : List BYTE}
    (hu : ∀ c ∈ username, isAlnum c = true) (hh : ∀ c ∈ hwid, isSidChar c = true) :
    Utf8.Valid (postData username password hwid) ↔ Utf8.Valid password := by
  have hbefore : Utf8.Ascii (text postDataUsername ++ username ++ text postDataPassword) := by
    refine List.forall_mem_append.mpr ⟨List.forall_mem_append.mpr ⟨?_, ?_⟩, ?_⟩
    · exact ascii_text _ (by simp)
    · exact fun c hc => ascii_of_alnum (hu c hc)
    · exact ascii_text _ (by simp)
  have hafter : Utf8.Ascii (text postDataHwid ++ hwid ++ text postDataEnd) := by
    refine List.forall_mem_append.mpr ⟨List.forall_mem_append.mpr ⟨?_, ?_⟩, ?_⟩
    · exact ascii_text _ (by simp)
    · exact fun c hc => ascii_of_isSidChar (hh c hc)
    · exact ascii_text _ (by simp)
  have hne : text postDataHwid ++ hwid ++ text postDataEnd ≠ [] :=
    fun h => text_postDataEnd_ne_nil (List.append_eq_nil_iff.mp h).2
  rw [postData_eq]
  exact Utf8.valid_append_ascii hbefore hafter hne

/-! ## A password that stays in its string -/

theorem run_inValue {p : List BYTE} (hp : ∀ b ∈ p, Plain b) (fields : List Value) (name : String) :
    run (inValue fields name []) p = some (inValue fields name p) :=
  run_plain hp false [] _

/-- The decoder up to the password. -/
theorem run_beforePassword {username : List BYTE} (hu : ∀ b ∈ username, Plain b) :
    run ⟨.value, []⟩ (text postDataUsername ++ username ++ text postDataPassword) =
      some (inValue [field "In Game Name" username true] "Name of Ran" []) := by
  rw [run_append, run_append, run_postDataUsername, Option.bind_some, run_inValue hu,
    Option.bind_some, run_postDataPassword]

/-- The decoder after the password. -/
theorem run_afterPassword {hwid : List BYTE} (hh : ∀ b ∈ hwid, Plain b)
    (username password : List BYTE) :
    run (inValue [field "In Game Name" username true] "Name of Ran" password)
        (text postDataHwid ++ hwid ++ text postDataEnd) =
      some ⟨.done (request username password hwid), []⟩ := by
  rw [run_append, run_append, run_postDataHwid, Option.bind_some, run_inValue hh,
    Option.bind_some, run_postDataEnd]
  rfl

/-- With a password that stays in its string, the decoder reads the request that is meant. -/
theorem run_postData {username password hwid : List BYTE} (hu : ∀ b ∈ username, Plain b)
    (hp : ∀ b ∈ password, Plain b) (hh : ∀ b ∈ hwid, Plain b) :
    run ⟨.value, []⟩ (postData username password hwid) =
      some ⟨.done (request username password hwid), []⟩ := by
  rw [postData_eq, run_append, run_append, run_beforePassword hu, Option.bind_some,
    run_inValue hp, Option.bind_some, run_afterPassword hh]

theorem fieldValues_request (username password hwid : List BYTE) :
    fieldValues (request username password hwid) = some [username, password, hwid] := by
  rfl

/-! ## A password that does not stay in its string -/

/-- A quote of the text after the password: the string ends there, or the document is refused. -/
theorem completes_of_run_postDataHwid {fields : List Value} {esc : Escape}
    {acc hwid : List BYTE} {j : Value}
    (h : (run ⟨.str false esc acc, openFields fields "Name of Ran"⟩
      (text postDataHwid ++ hwid ++ text postDataEnd)).bind finish = some j) :
    Completes (· = .str acc) (openFields fields "Name of Ran") j := by
  obtain ⟨rest, htext⟩ : ∃ rest, text postDataHwid ++ hwid ++ text postDataEnd =
      [0x22, 0x2C, 0x20, 0x22, 0x69] ++ rest :=
    ⟨(text postDataHwid).drop 5 ++ (hwid ++ text postDataEnd), by
      rw [List.append_assoc]
      rfl⟩
  rw [htext, List.cons_append, run_cons] at h
  obtain ⟨s, hs, hj⟩ := Option.bind_eq_some_iff.mp h
  obtain ⟨t, ht, hs⟩ := Option.bind_eq_some_iff.mp hs
  rcases step_quote ht with rfl | rfl
  · exact completes_of_put (run_fits hs (finish_fits hj))
  · -- The quote is in the string, so the next one ends it, and `i` cannot follow.
    rw [run_append] at hs
    cases hs

/-- The field that is open when the password begins has what its string was read as. -/
theorem eq_of_fieldValues {f : Value} {name : String} {v username password hwid : List BYTE}
    {j : Value} (hj : Completes (· = .str v) (openFields [f] name) j)
    (h : fieldValues j = some [username, password, hwid]) : v = password := by
  obtain ⟨_, _, ⟨_, _, ⟨_, _, ⟨_, _, ⟨_, _, rfl, rfl⟩, rfl⟩, rfl⟩, rfl⟩, rfl⟩ := hj
  simp only [fieldValues, Option.bind_eq_bind, Option.bind_eq_some_iff] at h
  obtain ⟨embeds, hembeds, items, hitems, h⟩ := h
  rw [member?_eq hembeds] at hitems
  cases hitems
  split at h
  · rename_i items embed he
    obtain ⟨rfl, -⟩ := List.cons.inj he
    simp only [Option.bind_eq_some_iff] at h
    obtain ⟨fields, hfields, items, hitems, h⟩ := h
    rw [member?_eq hfields] at hitems
    cases hitems
    simp only [List.cons_append, List.nil_append, List.mapM_cons, Option.bind_eq_bind,
      Option.bind_eq_some_iff, Option.pure_def, Option.some.injEq, List.cons.injEq] at h
    obtain ⟨_, -, _, ⟨x, ⟨y, hy, hx⟩, _, -, rfl⟩, -, rfl, -⟩ := h
    rw [@member?_eq [_] _ _ _ _ hy] at hx
    exact Option.some.inj hx
  · cases h

/-- A well-formed document has a password of characters that stand for themselves: any other one is
read as a string that is shorter. -/
theorem plain_of_wellFormed {username password hwid : List BYTE} (hu : ∀ b ∈ username, Plain b)
    (h : WellFormed (postData username password hwid) username password hwid) :
    ∀ b ∈ password, Plain b := by
  obtain ⟨j, hj, hvalues⟩ := h
  unfold decode at hj
  split at hj
  · rw [postData_eq, List.append_assoc, run_append, run_beforePassword hu, Option.bind_some,
      inValue] at hj
    by_contra hp
    rcases shorter_of_run hp hj with ⟨v, hlt, hc⟩ | ⟨esc, acc, hlt, hrest⟩
    · rw [eq_of_fieldValues hc hvalues] at hlt
      exact lt_irrefl _ hlt
    · rw [eq_of_fieldValues (completes_of_run_postDataHwid hrest) hvalues] at hlt
      exact lt_irrefl _ hlt
  · cases hj

/-- The request for an accepted user name and an HWID over its alphabet is well formed exactly if
the password is UTF-8 of characters that stand for themselves. -/
theorem postData_wellFormed_iff {username password hwid : List BYTE}
    (hu : isValidUsername username = true) (hh : ∀ c ∈ hwid, isSidChar c = true) :
    WellFormed (postData username password hwid) username password hwid ↔
      Utf8.Valid password ∧ ∀ b ∈ password, Plain b := by
  have halnum := isValidUsername_alnum hu
  have huPlain : ∀ b ∈ username, Plain b := fun b hb => plain_of_alnum (halnum b hb)
  have hhPlain : ∀ b ∈ hwid, Plain b := fun b hb => plain_of_isSidChar (hh b hb)
  constructor
  · intro h
    refine ⟨?_, plain_of_wellFormed huPlain h⟩
    obtain ⟨j, hj, -⟩ := h
    unfold decode at hj
    split at hj
    · rename_i hvalid
      exact (valid_postData halnum hh).mp hvalid
    · cases hj
  · rintro ⟨hvalid, hp⟩
    refine ⟨request username password hwid, ?_, fieldValues_request username password hwid⟩
    unfold decode
    rw [if_pos ((valid_postData halnum hh).mpr hvalid), run_postData huPlain hp hhPlain]
    rfl

theorem postData_wellFormed_iff_sample :
    WellFormed (postData (bytes "Pogi123") (bytes "Pogi Ran EP7") (bytes "S-1-5-21-1004"))
        (bytes "Pogi123") (bytes "Pogi Ran EP7") (bytes "S-1-5-21-1004") ↔
      Utf8.Valid (bytes "Pogi Ran EP7") ∧ ∀ b ∈ bytes "Pogi Ran EP7", Plain b :=
  postData_wellFormed_iff (by decide) (by decide)

/-- `isValidPassword` accepts a quote, which ends the string of the password. -/
theorem not_wellFormed_quote :
    isValidUsername (bytes "Pogi123") = true ∧ isValidPassword (bytes "Pogi\"Ran EP7") = true ∧
    (bytes "S-1-5-21-1004").all isSidChar = true ∧
    ¬ WellFormed (postData (bytes "Pogi123") (bytes "Pogi\"Ran EP7") (bytes "S-1-5-21-1004"))
        (bytes "Pogi123") (bytes "Pogi\"Ran EP7") (bytes "S-1-5-21-1004") := by
  refine ⟨by decide, by decide, by decide, fun h => ?_⟩
  have hp := plain_of_wellFormed (by decide) h
  revert hp
  decide

end Bossran
