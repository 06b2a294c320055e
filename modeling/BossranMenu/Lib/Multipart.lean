import Mathlib.Data.List.Infix

/-!
# Multipart bodies

The framing of RFC 2046: parts separated by a delimiter line, each a header, a blank line and a
content.

* `cutAt d s` cuts `s` at the first occurrence of `d`. If the first symbol of `d` does not occur
  again in `d`, then what stands in front of an appended `d` comes back exactly if `d` does not
  occur in it (`cutAt_append`, `cutAt_of_infix`).
* `parse` reads a body, `encode` writes one.
* `parse_encode_iff`: a body gives back the contents of its parts exactly if no content, with the
  line end in front of it, contains the delimiter.
-/

namespace Multipart

/-! ## Cutting at a delimiter -/

section Cut

variable {β : Type} [DecidableEq β]

/-- `s` in front of the first occurrence of `d`, and behind it. -/
def cutAt (d : List β) : List β → Option (List β × List β)
  | [] => if d = [] then some ([], []) else none
  | b :: s =>
    if d.isPrefixOf (b :: s) then some ([], (b :: s).drop d.length)
    else (cutAt d s).map fun (x, y) => (b :: x, y)

theorem cutAt_of_prefix {d s : List β} (h : d <+: s) : cutAt d s = some ([], s.drop d.length) := by
  cases s with
  | nil => simp [cutAt, List.prefix_nil.mp h]
  | cons b s => rw [cutAt, if_pos (List.isPrefixOf_iff_prefix.mpr h)]

theorem cutAt_cons {d s : List β} {b : β} (h : ¬ d <+: b :: s) :
    cutAt d (b :: s) = (cutAt d s).map fun (x, y) => (b :: x, y) := by
  rw [cutAt, if_neg (fun hp => h (List.isPrefixOf_iff_prefix.mp hp))]

variable {c : β} {d : List β}

/-- An appended delimiter is the first one, if none occurs before it. -/
theorem cutAt_append (hc : c ∉ d) {s : List β} (hs : ¬ c :: d <:+: s) (r : List β) :
    cutAt (c :: d) (s ++ c :: d ++ r) = some (s, r) := by
  induction s with
  | nil => simpa using cutAt_of_prefix (List.prefix_append (c :: d) r)
  | cons b s ih =>
    have hb : ¬ c :: d <+: b :: (s ++ c :: d ++ r) := by
      intro hp
      obtain ⟨rfl, hd⟩ := List.cons_prefix_cons.mp hp
      rw [List.append_assoc] at hd
      -- The occurrence ends before the appended one starts, or `d` contains its first symbol.
      rcases List.prefix_or_prefix_of_prefix hd (List.prefix_append s _) with hds | ⟨t, rfl⟩
      · exact hs (List.cons_prefix_cons.mpr ⟨rfl, hds⟩).isInfix
      · rw [List.prefix_append_right_inj] at hd
        cases t with
        | nil => exact hs (by simp)
        | cons a t =>
          obtain ⟨rfl, -⟩ := List.cons_prefix_cons.mp hd
          exact hc (by simp)
    rw [List.cons_append, List.cons_append, cutAt_cons hb,
      ih fun h => hs (List.infix_cons h)]
    rfl

/-- A delimiter that occurs is cut at, whatever follows. -/
theorem cutAt_of_infix {s : List β} (hs : c :: d <:+: s) :
    ∃ x y, s = x ++ c :: d ++ y ∧ ∀ r, cutAt (c :: d) (s ++ r) = some (x, y ++ r) := by
  induction s with
  | nil => simp at hs
  | cons b s ih =>
    by_cases hp : c :: d <+: b :: s
    · obtain ⟨y, hy⟩ := hp
      refine ⟨[], y, by simp [← hy], fun r => ?_⟩
      rw [← hy, List.append_assoc, cutAt_of_prefix (List.prefix_append ..), List.drop_left]
    · obtain ⟨x, y, rfl, hcut⟩ := ih ((List.infix_cons_iff.mp hs).resolve_left hp)
      refine ⟨b :: x, y, rfl, fun r => ?_⟩
      have hr : ¬ c :: d <+: b :: (x ++ c :: d ++ y ++ r) := by
        intro h
        have hs : b :: (x ++ c :: d ++ y) <+: b :: (x ++ c :: d ++ y ++ r) := by simp
        refine hp (List.prefix_of_prefix_length_le h hs ?_)
        simp only [List.length_cons, List.length_append]
        omega
      rw [List.cons_append, cutAt_cons hr, hcut]
      rfl

omit [DecidableEq β] in
/-- Where its first symbol does not occur, the delimiter does not start. -/
theorem infix_append_iff_of_notMem {l s : List β} (hl : c ∉ l) :
    c :: d <:+: l ++ s ↔ c :: d <:+: s := by
  induction l with
  | nil => simp
  | cons b l ih =>
    rw [List.mem_cons, not_or] at hl
    rw [List.cons_append, List.infix_cons_iff, ih hl.2]
    refine or_iff_right fun h => hl.1 (List.cons_prefix_cons.mp h).1

end Cut

/-! ## Parts -/

abbrev Byte := BitVec 8

def crlf : List Byte := [0x0D, 0x0A]

/-- The delimiter of a boundary: a line end, two dashes and the boundary. -/
def delimiter (boundary : List Byte) : List Byte := 0x0D :: 0x0A :: 0x2D :: 0x2D :: boundary

structure Part where
  /-- The lines of the header, without their line ends. -/
  header : List (List Byte)
  content : List Byte
  deriving DecidableEq

/-- The text of a part. -/
def Part.text (p : Part) : List Byte := p.header.flatMap (· ++ crlf) ++ crlf ++ p.content

/-- The lines up to the first empty one, of which `line` has been read, and what follows it. -/
def readHeader : List Byte → List Byte → List (List Byte) × List Byte
  | line, [] => ([line], [])
  | line, [b] => ([line ++ [b]], [])
  | line, b :: c :: s =>
    if b = 0x0D ∧ c = 0x0A then
      if line = [] then ([], s) else (line :: (readHeader [] s).1, (readHeader [] s).2)
    else readHeader (line ++ [b]) (c :: s)

/-- The part whose text this is. -/
def readPart (s : List Byte) : Part := ⟨(readHeader [] s).1, (readHeader [] s).2⟩

/-- Spaces and tabs behind a boundary. -/
def isPadding (b : Byte) : Bool := b = 0x20 || b = 0x09

/-- The parts behind a delimiter, at most `n` of them. Two more dashes close the body. -/
def parts (d : List Byte) : Nat → List Byte → Option (List Part)
  | 0, _ => none
  | n + 1, s =>
    if [0x2D, 0x2D].isPrefixOf s then some []
    else
      match s.dropWhile isPadding with
      | 0x0D :: 0x0A :: s => do
        let (p, s) ← cutAt d s
        return readPart p :: (← parts d n s)
      | _ => none

/-- The parts of a body. What stands before the first delimiter is skipped; the line end of the
first delimiter may be missing. -/
def parse (boundary body : List Byte) : Option (List Part) := do
  let (_, s) ← cutAt (delimiter boundary) (crlf ++ body)
  parts (delimiter boundary) (s.length + 1) s

/-- The body that has these parts. -/
def encode (boundary : List Byte) : List Part → List Byte
  | [] => [0x2D, 0x2D] ++ boundary ++ [0x2D, 0x2D] ++ crlf
  | p :: ps => [0x2D, 0x2D] ++ boundary ++ crlf ++ p.text ++ crlf ++ encode boundary ps

/-! ## Round trip -/

/-- A header line: not empty, no line end in it, and no boundary at its start. -/
structure IsHeaderLine (l : List Byte) : Prop where
  ne_nil : l ≠ []
  no_cr : 0x0D ∉ l
  no_dash : l.head? ≠ some 0x2D

theorem isHeaderLine_iff {l : List Byte} :
    IsHeaderLine l ↔ l ≠ [] ∧ 0x0D ∉ l ∧ l.head? ≠ some 0x2D :=
  ⟨fun ⟨h1, h2, h3⟩ => ⟨h1, h2, h3⟩, fun ⟨h1, h2, h3⟩ => ⟨h1, h2, h3⟩⟩

instance (l : List Byte) : Decidable (IsHeaderLine l) := decidable_of_iff _ isHeaderLine_iff.symm

theorem IsHeaderLine.append {l s : List Byte} (hl : IsHeaderLine l) (hs : 0x0D ∉ s) :
    IsHeaderLine (l ++ s) := by
  refine ⟨fun h => hl.ne_nil (List.append_eq_nil_iff.mp h).1, ?_, ?_⟩
  · rw [List.mem_append, not_or]
    exact ⟨hl.no_cr, hs⟩
  · rw [List.head?_append_of_ne_nil _ hl.ne_nil]
    exact hl.no_dash

theorem readHeader_crlf (line s : List Byte) :
    readHeader line (crlf ++ s) =
      if line = [] then ([], s) else (line :: (readHeader [] s).1, (readHeader [] s).2) := rfl

/-- Up to a line end everything belongs to the line. -/
theorem readHeader_line {l : List Byte} (hl : 0x0D ∉ l) (line s : List Byte) :
    readHeader line (l ++ crlf ++ s) = readHeader (line ++ l) (crlf ++ s) := by
  induction l generalizing line with
  | nil => simp
  | cons b l ih =>
    rw [List.mem_cons, not_or] at hl
    obtain ⟨c, t, ht⟩ : ∃ c t, l ++ crlf ++ s = c :: t := by cases l <;> exact ⟨_, _, rfl⟩
    rw [List.cons_append, List.cons_append, ht, readHeader, if_neg fun h => hl.1 h.1.symm, ← ht,
      ih hl.2, List.append_assoc]
    rfl

/-- A part is read from its text. -/
theorem readPart_text {p : Part} (h : ∀ l ∈ p.header, IsHeaderLine l) : readPart p.text = p := by
  obtain ⟨header, content⟩ := p
  have hread : readHeader [] (Part.text ⟨header, content⟩) = (header, content) := by
    induction header with
    | nil => rfl
    | cons l ls ih =>
      have hl := h l (List.mem_cons_self ..)
      have hsplit : Part.text ⟨l :: ls, content⟩ = l ++ crlf ++ Part.text ⟨ls, content⟩ := by
        simp [Part.text]
      rw [hsplit, readHeader_line hl.no_cr, readHeader_crlf, List.nil_append, if_neg hl.ne_nil,
        ih fun l hl => h l (List.mem_cons_of_mem _ hl)]
  rw [readPart, hread]

/-- If the blank line has been read, what follows belongs to the content. -/
theorem readHeader_append (line s t : List Byte) :
    (readHeader line s).2 = [] ∨
      readHeader line (s ++ t) = ((readHeader line s).1, (readHeader line s).2 ++ t) := by
  induction line, s using readHeader.induct with
  | case1 line => exact .inl rfl
  | case2 line b => exact .inl rfl
  | case3 b c s h =>
    obtain ⟨rfl, rfl⟩ := h
    exact .inr rfl
  | case4 line b c s h hline ih =>
    obtain ⟨rfl, rfl⟩ := h
    rw [show 0x0D :: 0x0A :: s = crlf ++ s from rfl, List.append_assoc, readHeader_crlf,
      readHeader_crlf, if_neg hline, if_neg hline]
    rcases ih with ih | ih
    · exact .inl ih
    · exact .inr (by rw [ih])
  | case5 line b c s h ih =>
    rw [List.cons_append, List.cons_append, readHeader, readHeader, if_neg h, if_neg h]
    exact ih

/-- Behind a line end, what does not start with a dash starts no delimiter. -/
theorem infix_crlf_append_iff {boundary s : List Byte} (h : s.head? ≠ some 0x2D) :
    delimiter boundary <:+: crlf ++ s ↔ delimiter boundary <:+: s := by
  show delimiter boundary <:+: 0x0D :: 0x0A :: s ↔ _
  rw [List.infix_cons_iff, List.infix_cons_iff]
  constructor
  · rintro (hp | hp | hp)
    · simp only [delimiter, List.cons_prefix_cons, true_and] at hp
      obtain ⟨t, rfl⟩ := hp
      exact absurd rfl h
    · exact absurd (List.cons_prefix_cons.mp hp).1 (by decide)
    · exact hp
  · exact fun hp => .inr (.inr hp)

/-- A header contains no delimiter: it can only occur in the content, or at its beginning. -/
theorem infix_text_iff {boundary : List Byte} {p : Part} (h : ∀ l ∈ p.header, IsHeaderLine l) :
    delimiter boundary <:+: p.text ↔ delimiter boundary <:+: crlf ++ p.content := by
  obtain ⟨header, content⟩ := p
  induction header with
  | nil => rfl
  | cons l ls ih =>
    have hl := h l (List.mem_cons_self ..)
    have hls : ∀ l ∈ ls, IsHeaderLine l := fun l hl => h l (List.mem_cons_of_mem _ hl)
    have hsplit : Part.text ⟨l :: ls, content⟩ = l ++ crlf ++ Part.text ⟨ls, content⟩ := by
      simp [Part.text]
    have hnext : (Part.text ⟨ls, content⟩).head? ≠ some 0x2D := by
      cases ls with
      | nil => simp [Part.text, crlf]
      | cons l' ls =>
        obtain ⟨b, l', rfl⟩ := List.exists_cons_of_ne_nil (hls l' (List.mem_cons_self ..)).ne_nil
        simpa [Part.text] using (hls (b :: l') (List.mem_cons_self ..)).no_dash
    rw [hsplit, List.append_assoc, delimiter, infix_append_iff_of_notMem hl.no_cr, ← delimiter,
      infix_crlf_append_iff hnext]
    exact ih hls

/-- A part whose text is cut short by a delimiter loses content. -/
theorem readPart_content_ne {boundary x y : List Byte} {p : Part}
    (h : ∀ l ∈ p.header, IsHeaderLine l) (hx : p.text = x ++ delimiter boundary ++ y) :
    (readPart x).content ≠ p.content := by
  intro he
  have hread := congrArg Part.content (readPart_text h)
  rcases readHeader_append [] x (delimiter boundary ++ y) with hnil | happ
  · have hc : p.content = [] := he.symm.trans hnil
    have hd := (infix_text_iff h).mp ⟨x, y, hx.symm⟩
    rw [hc] at hd
    have := hd.length_le
    simp [delimiter, crlf] at this
  · have hlen : p.content = (readPart x).content ++ (delimiter boundary ++ y) := by
      rw [← hread, hx, List.append_assoc, readPart, happ]
      rfl
    rw [he] at hlen
    exact absurd (List.self_eq_append_right.mp hlen) (by simp [delimiter])

/-- What follows the first delimiter of an encoded body. -/
def afterDelimiter (boundary : List Byte) : List Part → List Byte
  | [] => [0x2D, 0x2D] ++ crlf
  | p :: ps => crlf ++ (p.text ++ delimiter boundary ++ afterDelimiter boundary ps)

theorem crlf_encode (boundary : List Byte) (ps : List Part) :
    crlf ++ encode boundary ps = delimiter boundary ++ afterDelimiter boundary ps := by
  induction ps with
  | nil => simp [encode, afterDelimiter, delimiter, crlf]
  | cons p ps ih =>
    have hsplit : crlf ++ encode boundary (p :: ps) =
        delimiter boundary ++ crlf ++ p.text ++ (crlf ++ encode boundary ps) := by
      simp [encode, delimiter, crlf]
    rw [hsplit, ih, afterDelimiter]
    simp

theorem length_lt_afterDelimiter (boundary : List Byte) (ps : List Part) :
    ps.length < (afterDelimiter boundary ps).length := by
  induction ps with
  | nil => simp [afterDelimiter, crlf]
  | cons p ps ih =>
    have hcrlf : crlf.length = 2 := rfl
    simp only [afterDelimiter, List.length_cons, List.length_append]
    omega

theorem parts_crlf (d : List Byte) (n : Nat) (s : List Byte) :
    parts d (n + 1) (crlf ++ s) =
      (cutAt d s).bind fun cut => (parts d n cut.2).bind fun ps => some (readPart cut.1 :: ps) :=
  rfl

/-- The parts behind the first delimiter. -/
theorem parts_afterDelimiter_iff {boundary : List Byte} (hb : 0x0D ∉ boundary) {ps : List Part}
    (hps : ∀ p ∈ ps, ∀ l ∈ p.header, IsHeaderLine l) {n : Nat} (hn : ps.length < n) :
    (parts (delimiter boundary) n (afterDelimiter boundary ps)).map (·.map Part.content) =
        some (ps.map Part.content) ↔
      ∀ p ∈ ps, ¬ delimiter boundary <:+: crlf ++ p.content := by
  have hcr : (0x0D : Byte) ∉ 0x0A :: 0x2D :: 0x2D :: boundary := by simpa using hb
  induction ps generalizing n with
  | nil =>
    obtain ⟨n, rfl⟩ := Nat.exists_eq_succ_of_ne_zero (Nat.ne_of_gt hn)
    exact iff_of_true rfl fun p hp => by cases hp
  | cons p ps ih =>
    obtain ⟨n, rfl⟩ := Nat.exists_eq_succ_of_ne_zero (Nat.ne_of_gt (Nat.zero_lt_of_lt hn))
    have hp := hps p (List.mem_cons_self ..)
    have hrest := ih (n := n) (fun q hq => hps q (List.mem_cons_of_mem _ hq))
      (Nat.lt_of_succ_lt_succ hn)
    rw [List.forall_mem_cons, ← infix_text_iff hp, afterDelimiter, parts_crlf]
    refine Iff.trans ?_ (and_congr_right' hrest)
    by_cases hd : delimiter boundary <:+: p.text
    · obtain ⟨x, y, hx, hcut⟩ := cutAt_of_infix hd
      refine iff_of_false ?_ fun h => h.1 hd
      rw [List.append_assoc, delimiter, hcut, Option.bind_some]
      intro h
      obtain ⟨qs, hqs, he⟩ := Option.map_eq_some_iff.mp h
      obtain ⟨qs', -, hqs'⟩ := Option.bind_eq_some_iff.mp hqs
      rw [← Option.some.inj hqs', List.map_cons, List.map_cons] at he
      exact readPart_content_ne hp hx (List.head_eq_of_cons_eq he)
    · rw [and_iff_right hd, delimiter, cutAt_append hcr hd, Option.bind_some, ← delimiter]
      simp only [readPart_text hp]
      cases parts (delimiter boundary) n (afterDelimiter boundary ps) <;> simp

/-- A body gives back the contents of its parts exactly if the delimiter occurs in none of them,
the line end in front of the content included. -/
theorem parse_encode_iff {boundary : List Byte} (hb : 0x0D ∉ boundary) {ps : List Part}
    (hps : ∀ p ∈ ps, ∀ l ∈ p.header, IsHeaderLine l) :
    (parse boundary (encode boundary ps)).map (·.map Part.content) = some (ps.map Part.content) ↔
      ∀ p ∈ ps, ¬ delimiter boundary <:+: crlf ++ p.content := by
  rw [parse, crlf_encode, cutAt_of_prefix (List.prefix_append ..), List.drop_left,
    Option.bind_eq_bind, Option.bind_some]
  exact parts_afterDelimiter_iff hb hps (Nat.lt_succ_of_lt (length_lt_afterDelimiter ..))

end Multipart
