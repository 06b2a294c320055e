import BossranMenu.Authenticator
import BossranMenu.Lib.Tokens
import BossranMenu.Request

/-!
# Whole identifiers in the list (`authenticator.h`)

`IsHWIDPresent` looks for the HWID anywhere in the downloaded text, also inside a longer one.
`acceptsWhole_iff` tells for which texts it then still accepts only whole identifiers.
-/

namespace Bossran

open Tokens

/-- `IsHWIDPresent` accepts only an HWID that stands in the text by itself: the characters beside
it, if any, are no letters, digits or `-`. -/
def AcceptsWhole (pasteContent targetHWID : List BYTE) : Prop :=
  isHWIDPresent pasteContent targetHWID = true → WholeIn isSidChar targetHWID pasteContent

/-- Only whole identifiers are accepted exactly if the HWID is listed itself, or is part of no
listed one. -/
theorem acceptsWhole_iff {pasteContent targetHWID : List BYTE} (hne : targetHWID ≠ [])
    (halphabet : ∀ c ∈ targetHWID, isSidChar c = true) :
    AcceptsWhole pasteContent targetHWID ↔
      targetHWID ∈ tokens isSidChar pasteContent ∨
        ∀ token ∈ tokens isSidChar pasteContent, ¬ targetHWID <:+: token := by
  rw [AcceptsWhole, isHWIDPresent_iff, infix_iff_exists_token hne halphabet,
    ← mem_tokens_iff hne halphabet]
  constructor
  · intro h
    by_cases hex : ∃ token ∈ tokens isSidChar pasteContent, targetHWID <:+: token
    · exact .inl (h hex)
    · exact .inr fun token htoken hin => hex ⟨token, htoken, hin⟩
  · rintro (h | h) ⟨token, htoken, hin⟩
    · exact h
    · exact absurd hin (h token htoken)

/-- A listed HWID and a longer one that starts with it. -/
theorem acceptsWhole_iff_listed :
    AcceptsWhole (bytes "S-1-5-21-1004\r\nS-1-5-21-10045\r\n") (bytes "S-1-5-21-1004") :=
  (acceptsWhole_iff (by decide +kernel) (by decide +kernel)).mpr (.inl (by decide +kernel))

/-- Only the longer one is listed. -/
theorem not_acceptsWhole_prefix :
    ¬ AcceptsWhole (bytes "S-1-5-21-10045\r\n") (bytes "S-1-5-21-1004") := by
  intro h
  have hpresent : isHWIDPresent (bytes "S-1-5-21-10045\r\n") (bytes "S-1-5-21-1004") = true := by
    decide +kernel
  have hmem := (mem_tokens_iff (by decide +kernel) (by decide +kernel)).mpr (h hpresent)
  revert hmem
  decide +kernel

end Bossran
