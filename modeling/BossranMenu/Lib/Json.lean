import BossranMenu.Lib.Utf8

/-!
# A JSON decoder that reads byte by byte

`decode` reads a UTF-8 document with a pushdown machine: a mode, and a stack of the arrays and
objects that are still open. Strings are decoded to their UTF-8 bytes; of a number the text is kept.

* `run_plain`: inside a string, plain characters stand for themselves.
* `Fits stack j`: the value `j` completes what is open. What the machine decodes fits every stack
  that it had on the way (`run_fits`), so no later byte takes back what was read.
* `shorter_of_run`: a string that uses an escape decodes to fewer bytes than it is written with.
-/

namespace Json

open Utf8 (Byte)

inductive Value where
  | null
  | bool (b : Bool)
  | num (text : List Byte)
  | str (s : List Byte)
  | arr (items : List Value)
  | obj (members : List (List Byte × Value))

/-- The value of a key that occurs once. -/
def Value.member? (k : List Byte) : Value → Option Value
  | .obj ms =>
    match ms.filter fun m => m.1 = k with
    | [m] => some m.2
    | _ => none
  | _ => none

def Value.items? : Value → Option (List Value)
  | .arr items => some items
  | _ => none

def Value.str? : Value → Option (List Byte)
  | .str s => some s
  | _ => none

/-! ## The machine -/

/-- An array or object that is open: what it has so far, and the key of the next member. -/
inductive Frame where
  | arr (items : List Value)
  | obj (members : List (List Byte × Value)) (key : List Byte)

/-- Where an escape sequence stands. -/
inductive Escape where
  | none
  | backslash
  /-- After `\u` and so many hexadecimal digits. -/
  | unicode (digits code : Nat)
  /-- After the high half of a surrogate pair. -/
  | high (code : Nat)
  | highBackslash (code : Nat)
  | low (high digits code : Nat)

/-- Where a number stands. -/
inductive Num where
  | minus | zero | int | point | frac | e | sign | exp
  deriving DecidableEq

inductive Mode where
  | value
  /-- After `[`. -/
  | firstItem
  /-- After an opening brace. -/
  | firstKey
  | nextKey
  | colon
  /-- After a value inside an array or object. -/
  | after
  | str (isKey : Bool) (esc : Escape) (acc : List Byte)
  | lit (rest : List Byte) (v : Value)
  | num (st : Num) (text : List Byte)
  | done (v : Value)

structure State where
  mode : Mode
  stack : List Frame

def isSpace (b : Byte) : Bool := b = 0x20 || b = 0x09 || b = 0x0A || b = 0x0D

def isDigit (b : Byte) : Bool := 0x30 ≤ b && b ≤ 0x39

def hexDigit (b : Byte) : Option Nat :=
  if isDigit b then some (b.toNat - 0x30)
  else if 0x41 ≤ b && b ≤ 0x46 then some (b.toNat - 0x41 + 10)
  else if 0x61 ≤ b && b ≤ 0x66 then some (b.toNat - 0x61 + 10)
  else none

/-- The character after a backslash, other than `u`. -/
def escaped (b : Byte) : Option Byte :=
  if b = 0x22 || b = 0x5C || b = 0x2F then some b
  else if b = 0x62 then some 0x08
  else if b = 0x66 then some 0x0C
  else if b = 0x6E then some 0x0A
  else if b = 0x72 then some 0x0D
  else if b = 0x74 then some 0x09
  else none

/-- The UTF-8 bytes of a code point. -/
def encode (c : Nat) : List Byte :=
  let tail (n : Nat) : Byte := BitVec.ofNat 8 (0x80 + n % 0x40)
  if c < 0x80 then [BitVec.ofNat 8 c]
  else if c < 0x800 then [BitVec.ofNat 8 (0xC0 + c / 0x40), tail c]
  else if c < 0x10000 then [BitVec.ofNat 8 (0xE0 + c / 0x1000), tail (c / 0x40), tail c]
  else [BitVec.ofNat 8 (0xF0 + c / 0x40000), tail (c / 0x1000), tail (c / 0x40), tail c]

/-- A byte of a string, other than its closing quote. -/
def strStep (esc : Escape) (acc : List Byte) (b : Byte) : Option (Escape × List Byte) :=
  match esc with
  | .none =>
    if b < 0x20 then none
    else if b = 0x5C then some (.backslash, acc)
    else some (.none, acc ++ [b])
  | .backslash =>
    if b = 0x75 then some (.unicode 0 0, acc)
    else (escaped b).map fun c => (.none, acc ++ [c])
  | .unicode digits code =>
    (hexDigit b).bind fun h =>
      let code := code * 16 + h
      if digits < 3 then some (.unicode (digits + 1) code, acc)
      else if 0xD800 ≤ code ∧ code < 0xDC00 then some (.high code, acc)
      else if 0xDC00 ≤ code ∧ code < 0xE000 then none
      else some (.none, acc ++ encode code)
  | .high code => if b = 0x5C then some (.highBackslash code, acc) else none
  | .highBackslash code => if b = 0x75 then some (.low code 0 0, acc) else none
  | .low high digits code =>
    (hexDigit b).bind fun h =>
      let code := code * 16 + h
      if digits < 3 then some (.low high (digits + 1) code, acc)
      else if 0xDC00 ≤ code ∧ code < 0xE000 then
        some (.none, acc ++ encode (0x10000 + (high - 0xD800) * 0x400 + (code - 0xDC00)))
      else none

def numStep (st : Num) (b : Byte) : Option Num :=
  match st with
  | .minus => if b = 0x30 then some .zero else if isDigit b then some .int else none
  | .zero => if b = 0x2E then some .point else if b = 0x65 || b = 0x45 then some .e else none
  | .int =>
    if isDigit b then some .int
    else if b = 0x2E then some .point else if b = 0x65 || b = 0x45 then some .e else none
  | .point => if isDigit b then some .frac else none
  | .frac => if isDigit b then some .frac else if b = 0x65 || b = 0x45 then some .e else none
  | .e => if b = 0x2B || b = 0x2D then some .sign else if isDigit b then some .exp else none
  | .sign => if isDigit b then some .exp else none
  | .exp => if isDigit b then some .exp else none

/-- Where a number may end. -/
def Num.complete : Num → Bool
  | .zero | .int | .frac | .exp => true
  | _ => false

/-- A value is complete. -/
def put (v : Value) : List Frame → State
  | [] => ⟨.done v, []⟩
  | .arr items :: st => ⟨.after, .arr (items ++ [v]) :: st⟩
  | .obj ms k :: st => ⟨.after, .obj (ms ++ [(k, v)]) k :: st⟩

/-- The first byte of a value. -/
def start (b : Byte) (stack : List Frame) : Option State :=
  if b = 0x7B then some ⟨.firstKey, .obj [] [] :: stack⟩
  else if b = 0x5B then some ⟨.firstItem, .arr [] :: stack⟩
  else if b = 0x22 then some ⟨.str false .none [], stack⟩
  else if b = 0x74 then some ⟨.lit [0x72, 0x75, 0x65] (.bool true), stack⟩
  else if b = 0x66 then some ⟨.lit [0x61, 0x6C, 0x73, 0x65] (.bool false), stack⟩
  else if b = 0x6E then some ⟨.lit [0x75, 0x6C, 0x6C] .null, stack⟩
  else if b = 0x2D then some ⟨.num .minus [b], stack⟩
  else if b = 0x30 then some ⟨.num .zero [b], stack⟩
  else if isDigit b then some ⟨.num .int [b], stack⟩
  else none

/-- A closing bracket or brace. -/
def close (b : Byte) : List Frame → Option State
  | .arr items :: st => if b = 0x5D then some (put (.arr items) st) else none
  | .obj ms _ :: st => if b = 0x7D then some (put (.obj ms) st) else none
  | [] => none

/-- A byte after a complete value. -/
def afterStep (b : Byte) (s : State) : Option State :=
  if isSpace b then some s
  else if b = 0x2C then
    match s.stack with
    | .arr _ :: _ => some ⟨.value, s.stack⟩
    | .obj _ _ :: _ => some ⟨.nextKey, s.stack⟩
    | [] => none
  else close b s.stack

/-- A byte where a key may start. -/
def keyStep (b : Byte) (s : State) : Option State :=
  if isSpace b then some s
  else if b = 0x22 then some ⟨.str true .none [], s.stack⟩
  else none

/-- The closing quote of a string. -/
def closeStr (isKey : Bool) (acc : List Byte) (stack : List Frame) : Option State :=
  if isKey then
    match stack with
    | .obj ms _ :: st => some ⟨.colon, .obj ms acc :: st⟩
    | _ => none
  else some (put (.str acc) stack)

def step (s : State) (b : Byte) : Option State :=
  match s.mode with
  | .value => if isSpace b then some s else start b s.stack
  | .firstItem =>
    if isSpace b then some s else if b = 0x5D then close b s.stack else start b s.stack
  | .firstKey => if b = 0x7D then close b s.stack else keyStep b s
  | .nextKey => keyStep b s
  | .colon => if isSpace b then some s else if b = 0x3A then some ⟨.value, s.stack⟩ else none
  | .after => afterStep b s
  | .str isKey .none acc =>
    if b = 0x22 then closeStr isKey acc s.stack
    else (strStep .none acc b).map fun r => ⟨.str isKey r.1 r.2, s.stack⟩
  | .str isKey esc acc => (strStep esc acc b).map fun r => ⟨.str isKey r.1 r.2, s.stack⟩
  | .lit rest v =>
    match rest with
    | [] => none
    | [c] => if b = c then some (put v s.stack) else none
    | c :: rest => if b = c then some ⟨.lit rest v, s.stack⟩ else none
  | .num st text =>
    match numStep st b with
    | some st' => some ⟨.num st' (text ++ [b]), s.stack⟩
    | none => if st.complete then afterStep b (put (.num text) s.stack) else none
  | .done _ => if isSpace b then some s else none

def run (s : State) (bs : List Byte) : Option State := bs.foldlM step s

/-- The value at the end of the document. -/
def finish (s : State) : Option Value :=
  match s.mode, s.stack with
  | .done v, _ => some v
  | .num st text, [] => if st.complete then some (.num text) else none
  | _, _ => none

/-- The value of a document, if it is a JSON document. -/
def decode (doc : List Byte) : Option Value :=
  if Utf8.Valid doc then (run ⟨.value, []⟩ doc).bind finish else none

/-! ## Runs -/

theorem run_nil (s : State) : run s [] = some s := rfl

theorem run_cons (s : State) (b : Byte) (bs : List Byte) :
    run s (b :: bs) = (step s b).bind fun s' => run s' bs := rfl

theorem run_append (s : State) (as bs : List Byte) :
    run s (as ++ bs) = (run s as).bind fun s' => run s' bs := by
  rw [run, List.foldlM_append]
  rfl

/-- A character that stands for itself in a string. -/
def Plain (b : Byte) : Prop := 0x20 ≤ b ∧ b ≠ 0x22 ∧ b ≠ 0x5C

instance (b : Byte) : Decidable (Plain b) := inferInstanceAs (Decidable (_ ∧ _))

theorem run_plain {p : List Byte} (hp : ∀ b ∈ p, Plain b) (k : Bool) (acc : List Byte)
    (st : List Frame) : run ⟨.str k .none acc, st⟩ p = some ⟨.str k .none (acc ++ p), st⟩ := by
  induction p generalizing acc with
  | nil => rw [run_nil, List.append_nil]
  | cons b p ih =>
    obtain ⟨h1, h2, h3⟩ := hp b (List.mem_cons_self ..)
    have hstep : step ⟨.str k .none acc, st⟩ b = some ⟨.str k .none (acc ++ [b]), st⟩ := by
      have hlt : ¬ b < 0x20 := BitVec.not_lt.mpr h1
      simp only [step, strStep, if_neg h2, if_neg h3, if_neg hlt, Option.map_some]
    rw [run_cons, hstep, Option.bind_some, ih fun c hc => hp c (List.mem_cons_of_mem _ hc),
      List.append_assoc, List.singleton_append]

/-- A member of an object is what `member?` finds under its key, if it finds anything. -/
theorem member?_eq {ms rest : List (List Byte × Value)} {k : List Byte} {x y : Value}
    (h : (Value.obj (ms ++ (k, x) :: rest)).member? k = some y) : y = x := by
  have hmem : (k, x) ∈ (ms ++ (k, x) :: rest).filter fun m => m.1 = k := by simp
  simp only [Value.member?] at h
  split at h
  · rename_i m hm
    rw [hm, List.mem_singleton] at hmem
    rw [← hmem] at h
    exact (Option.some.inj h).symm
  · cases h

/-! ## What is read stays -/

/-- `v` is the frame with more in it. -/
def Frame.Grows : Frame → Value → Prop
  | .arr items, v => ∃ rest, v = .arr (items ++ rest)
  | .obj ms _, v => ∃ rest, v = .obj (ms ++ rest)

/-- `v` is the frame with a value in `P` as its next item or member, and maybe more. -/
def Frame.Fills (P : Value → Prop) : Frame → Value → Prop
  | .arr items, v => ∃ x rest, P x ∧ v = .arr (items ++ x :: rest)
  | .obj ms k, v => ∃ x rest, P x ∧ v = .obj (ms ++ (k, x) :: rest)

/-- `j` completes the open frames around a value in `P`. -/
def Completes (P : Value → Prop) : List Frame → Value → Prop
  | [], j => P j
  | f :: st, j => Completes (f.Fills P) st j

/-- `j` completes the open frames. -/
def Fits : List Frame → Value → Prop
  | [], _ => True
  | f :: st, j => Completes f.Grows st j

/-- `j` can still be the value of a document that brought the machine to `s`. -/
def State.Fits (s : State) (j : Value) : Prop :=
  match s.mode with
  | .done v => j = v
  | _ => Json.Fits s.stack j

theorem Frame.Fills.mono {P Q : Value → Prop} (h : ∀ v, P v → Q v) {f : Frame} {v : Value}
    (hv : f.Fills P v) : f.Fills Q v := by
  cases f with
  | arr items =>
    obtain ⟨x, rest, hx, hv⟩ := hv
    exact ⟨x, rest, h x hx, hv⟩
  | obj ms k =>
    obtain ⟨x, rest, hx, hv⟩ := hv
    exact ⟨x, rest, h x hx, hv⟩

theorem Frame.Fills.grows {P : Value → Prop} {f : Frame} {v : Value} (hv : f.Fills P v) :
    f.Grows v := by
  cases f with
  | arr items =>
    obtain ⟨x, rest, -, hv⟩ := hv
    exact ⟨x :: rest, hv⟩
  | obj ms k =>
    obtain ⟨x, rest, -, hv⟩ := hv
    exact ⟨(k, x) :: rest, hv⟩

theorem Completes.mono {P Q : Value → Prop} (h : ∀ v, P v → Q v) {st : List Frame} {j : Value}
    (hj : Completes P st j) : Completes Q st j := by
  induction st generalizing P Q with
  | nil => exact h j hj
  | cons f st ih => exact ih (fun _ => Frame.Fills.mono h) hj

theorem Completes.fits {P : Value → Prop} {st : List Frame} {j : Value} (hj : Completes P st j) :
    Fits st j := by
  cases st with
  | nil => trivial
  | cons f st => exact Completes.mono (fun _ => Frame.Fills.grows) hj

theorem completes_of_put {v j : Value} {st : List Frame} (h : (put v st).Fits j) :
    Completes (· = v) st j := by
  cases st with
  | nil => exact h
  | cons f st =>
    cases f with
    | arr items =>
      have hg : Completes (Frame.arr (items ++ [v])).Grows st j := h
      show Completes ((Frame.arr items).Fills (· = v)) st j
      refine Completes.mono (fun w hw => ?_) hg
      obtain ⟨rest, rfl⟩ := hw
      exact ⟨v, rest, rfl, by simp⟩
    | obj ms k =>
      have hg : Completes (Frame.obj (ms ++ [(k, v)]) k).Grows st j := h
      show Completes ((Frame.obj ms k).Fills (· = v)) st j
      refine Completes.mono (fun w hw => ?_) hg
      obtain ⟨rest, rfl⟩ := hw
      exact ⟨v, rest, rfl, by simp⟩

theorem close_fits {b : Byte} {st : List Frame} {s : State} {j : Value} (h : close b st = some s)
    (hj : s.Fits j) : Fits st j := by
  cases st with
  | nil => cases h
  | cons f st =>
    cases f with
    | arr items =>
      simp only [close] at h
      split at h
      · cases h
        exact Completes.mono (fun w hw => ⟨[], by simp [hw]⟩) (completes_of_put hj)
      · cases h
    | obj ms k =>
      simp only [close] at h
      split at h
      · cases h
        exact Completes.mono (fun w hw => ⟨[], by simp [hw]⟩) (completes_of_put hj)
      · cases h

theorem start_fits {b : Byte} {st : List Frame} {s : State} {j : Value} (h : start b st = some s)
    (hj : s.Fits j) : Fits st j := by
  unfold start at h
  split at h
  · cases h
    exact Completes.fits hj
  · split at h
    · cases h
      exact Completes.fits hj
    · -- Every other value starts with the stack as it is.
      repeat' split at h
      all_goals cases h
      all_goals exact hj

theorem afterStep_fits {b : Byte} {s s' : State} {j : Value} (h : afterStep b s = some s')
    (hm : s.Fits j → Fits s.stack j) (hj : s'.Fits j) : Fits s.stack j := by
  unfold afterStep at h
  split at h
  · cases h
    exact hm hj
  · split at h
    · split at h
      · rename_i hst
        cases h
        exact hj
      · cases h
        exact hj
      · cases h
    · exact close_fits h hj

theorem put_fits {v j : Value} {st : List Frame} (h : (put v st).Fits j) : Fits st j :=
  Completes.fits (completes_of_put h)

theorem keyStep_fits {b : Byte} {s s' : State} {j : Value} (h : keyStep b s = some s')
    (hm : s.Fits j → Fits s.stack j) (hj : s'.Fits j) : Fits s.stack j := by
  unfold keyStep at h
  split at h
  · cases h
    exact hm hj
  · split at h
    · cases h
      exact hj
    · cases h

theorem closeStr_fits {k : Bool} {acc : List Byte} {st : List Frame} {s : State} {j : Value}
    (h : closeStr k acc st = some s) (hj : s.Fits j) : Fits st j := by
  unfold closeStr at h
  split at h
  · split at h
    · cases h
      exact hj
    · cases h
  · cases h
    exact put_fits hj

/-- A value that fits after a byte fitted before it. -/
theorem step_fits {s s' : State} {b : Byte} {j : Value} (h : step s b = some s') (hj : s'.Fits j) :
    s.Fits j := by
  obtain ⟨mode, st⟩ := s
  cases mode with
  | value =>
    simp only [step] at h
    split at h
    · cases h
      exact hj
    · exact start_fits h hj
  | firstItem =>
    simp only [step] at h
    split at h
    · cases h
      exact hj
    · split at h
      · exact close_fits h hj
      · exact start_fits h hj
  | firstKey =>
    simp only [step] at h
    split at h
    · exact close_fits h hj
    · exact keyStep_fits h id hj
  | nextKey => exact keyStep_fits h id hj
  | colon =>
    simp only [step] at h
    split at h
    · cases h
      exact hj
    · split at h
      · cases h
        exact hj
      · cases h
  | after => exact afterStep_fits h id hj
  | str k esc acc =>
    cases esc with
    | none =>
      simp only [step] at h
      split at h
      · exact closeStr_fits h hj
      · obtain ⟨r, -, rfl⟩ := Option.map_eq_some_iff.mp h
        exact hj
    | _ =>
      obtain ⟨r, -, rfl⟩ := Option.map_eq_some_iff.mp h
      exact hj
  | lit rest v =>
    simp only [step] at h
    split at h
    · cases h
    · split at h
      · cases h
        exact put_fits hj
      · cases h
    · split at h
      · cases h
        exact hj
      · cases h
  | num n text =>
    simp only [step] at h
    split at h
    · cases h
      exact hj
    · split at h
      · refine put_fits (v := .num text) ?_
        cases st with
        | nil =>
          -- After the number of a document that is nothing else only spaces may follow.
          simp only [put, afterStep, close] at h
          split at h
          · cases h
            exact hj
          · split at h <;> cases h
        | cons f st => cases f <;> exact afterStep_fits h id hj
      · cases h
  | done v =>
    simp only [step] at h
    split at h
    · cases h
      exact hj
    · cases h

theorem run_fits {s s' : State} {bs : List Byte} {j : Value} (h : run s bs = some s')
    (hj : s'.Fits j) : s.Fits j := by
  induction bs generalizing s with
  | nil => exact Option.some.inj h ▸ hj
  | cons b bs ih =>
    rw [run_cons] at h
    obtain ⟨t, ht, h⟩ := Option.bind_eq_some_iff.mp h
    exact step_fits ht (ih h)

theorem finish_fits {s : State} {j : Value} (h : finish s = some j) : s.Fits j := by
  obtain ⟨mode, st⟩ := s
  unfold finish at h
  split at h
  · rename_i hm
    cases h
    simp only at hm
    subst hm
    rfl
  · rename_i hm hst
    simp only at hm hst
    subst hm hst
    trivial
  · cases h

/-! ## Strings with escapes are shorter than they look -/

/-- The bytes that a string in this place was written with, at least, beyond those it stands for. -/
def Escape.slack : Escape → Nat
  | .none => 1
  | .backslash => 1
  | .unicode digits _ => 2 + digits
  | .high _ => 6
  | .highBackslash _ => 7
  | .low _ digits _ => 8 + digits

theorem length_encode_le (c : Nat) : (encode c).length ≤ 4 := by
  unfold encode
  simp only
  split
  · simp
  · split
    · simp
    · split <;> simp

theorem strStep_slack {esc esc' : Escape} {acc acc' : List Byte} {b : Byte}
    (h : strStep esc acc b = some (esc', acc')) :
    acc'.length + esc'.slack ≤ acc.length + esc.slack + 1 := by
  cases esc with
  | none =>
    simp only [strStep] at h
    split at h
    · cases h
    · split at h
      · cases h
        simp [Escape.slack]
      · cases h
        simp [Escape.slack]
  | backslash =>
    simp only [strStep] at h
    split at h
    · cases h
      simp [Escape.slack]
    · obtain ⟨c, -, hc⟩ := Option.map_eq_some_iff.mp h
      cases hc
      simp [Escape.slack]
  | unicode digits code =>
    obtain ⟨x, -, h⟩ := Option.bind_eq_some_iff.mp h
    simp only at h
    split at h
    · cases h
      simp only [Escape.slack]
      omega
    · split at h
      · cases h
        simp only [Escape.slack]
        omega
      · split at h
        · cases h
        · cases h
          have := length_encode_le (code * 16 + x)
          simp only [Escape.slack, List.length_append]
          omega
  | high code =>
    simp only [strStep] at h
    split at h <;> cases h
    simp [Escape.slack]
  | highBackslash code =>
    simp only [strStep] at h
    split at h <;> cases h
    simp [Escape.slack]
  | low high digits code =>
    obtain ⟨x, -, h⟩ := Option.bind_eq_some_iff.mp h
    simp only at h
    split at h
    · cases h
      simp only [Escape.slack]
      omega
    · split at h
      · cases h
        have := length_encode_le (0x10000 + (high - 0xD800) * 0x400 + (code * 16 + x - 0xDC00))
        simp only [Escape.slack, List.length_append]
        omega
      · cases h

theorem Escape.slack_pos (esc : Escape) : 0 < esc.slack := by
  cases esc <;> simp only [Escape.slack] <;> omega

/-- A byte of a string: its closing quote, or one that `strStep` takes. -/
theorem step_str {esc : Escape} {acc : List Byte} {st : List Frame} {b : Byte} {s : State}
    (h : step ⟨.str false esc acc, st⟩ b = some s) :
    (s = put (.str acc) st ∧ esc = .none) ∨
    ∃ esc' acc', strStep esc acc b = some (esc', acc') ∧ s = ⟨.str false esc' acc', st⟩ ∧
      (esc = .none → b ≠ 0x22) := by
  cases esc with
  | none =>
    simp only [step] at h
    split at h
    · exact .inl ⟨(Option.some.inj h).symm, rfl⟩
    · rename_i hb
      obtain ⟨r, hr, rfl⟩ := Option.map_eq_some_iff.mp h
      exact .inr ⟨r.1, r.2, hr, rfl, fun _ => hb⟩
  | _ =>
    obtain ⟨r, hr, rfl⟩ := Option.map_eq_some_iff.mp h
    exact .inr ⟨r.1, r.2, hr, rfl, nofun⟩

/-- A string that is being read either is still read after the bytes `bs`, or was closed by one of
them; what it stands for stays behind what was written. -/
theorem run_str {esc : Escape} {acc bs : List Byte} {st : List Frame} {s : State}
    (h : run ⟨.str false esc acc, st⟩ bs = some s) :
    (∃ esc' acc', s = ⟨.str false esc' acc', st⟩ ∧
      acc'.length + esc'.slack ≤ acc.length + esc.slack + bs.length) ∨
    ∃ v bs', v.length < acc.length + esc.slack + bs.length ∧ run (put (.str v) st) bs' = some s := by
  induction bs generalizing esc acc with
  | nil => exact .inl ⟨esc, acc, (Option.some.inj h).symm, by simp⟩
  | cons b bs ih =>
    rw [run_cons] at h
    obtain ⟨t, ht, hrun⟩ := Option.bind_eq_some_iff.mp h
    rcases step_str ht with ⟨rfl, rfl⟩ | ⟨esc₁, acc₁, hr, rfl, -⟩
    · exact .inr ⟨acc, bs, by simp only [Escape.slack, List.length_cons]; omega, hrun⟩
    · have hslack := strStep_slack hr
      simp only [List.length_cons]
      rcases ih hrun with ⟨esc', acc', hs, hle⟩ | ⟨v, bs', hlt, hs⟩
      · exact .inl ⟨esc', acc', hs, by omega⟩
      · exact .inr ⟨v, bs', by omega, hs⟩

/-- A quote closes a string, or is in it after a backslash. -/
theorem step_quote {esc : Escape} {acc : List Byte} {st : List Frame} {s : State}
    (h : step ⟨.str false esc acc, st⟩ 0x22 = some s) :
    s = put (.str acc) st ∨ s = ⟨.str false .none (acc ++ [0x22]), st⟩ := by
  rcases step_str h with ⟨rfl, -⟩ | ⟨esc', acc', hr, rfl, hne⟩
  · exact .inl rfl
  · cases esc with
    | none => exact absurd rfl (hne rfl)
    | backslash =>
      cases hr
      exact .inr rfl
    | unicode digits code => cases hr
    | high code => cases hr
    | highBackslash code => cases hr
    | low high digits code => cases hr

theorem exists_first_not_plain {p : List Byte} (hp : ¬ ∀ b ∈ p, Plain b) :
    ∃ q c r, p = q ++ c :: r ∧ (∀ b ∈ q, Plain b) ∧ ¬ Plain c := by
  induction p with
  | nil => simp at hp
  | cons b p ih =>
    by_cases hb : Plain b
    · obtain ⟨q, c, r, rfl, hq, hc⟩ := ih fun h => hp fun d hd => by
        rcases List.mem_cons.mp hd with rfl | hd
        · exact hb
        · exact h d hd
      exact ⟨b :: q, c, r, rfl, by simpa [hb] using hq, hc⟩
    · exact ⟨[], b, p, rfl, by simp, hb⟩

/-- Text with a character that does not stand for itself, put into a string: if a document comes of
it, the string was closed too early, or is still open after the text, and is shorter than the text
either way. -/
theorem shorter_of_run {p rest : List Byte} (hp : ¬ ∀ b ∈ p, Plain b) {st : List Frame} {j : Value}
    (h : (run ⟨.str false .none [], st⟩ (p ++ rest)).bind finish = some j) :
    (∃ v, v.length < p.length ∧ Completes (· = .str v) st j) ∨
    ∃ esc acc, acc.length < p.length ∧ (run ⟨.str false esc acc, st⟩ rest).bind finish = some j := by
  obtain ⟨q, c, r, rfl, hq, hc⟩ := exists_first_not_plain hp
  rw [List.append_assoc, run_append, run_plain hq, Option.bind_some, List.nil_append,
    List.cons_append, run_cons] at h
  obtain ⟨s, hbind, hj⟩ := Option.bind_eq_some_iff.mp h
  obtain ⟨t, ht, hs⟩ := Option.bind_eq_some_iff.mp hbind
  have hlen : (q ++ c :: r).length = q.length + r.length + 1 := by
    simp only [List.length_append, List.length_cons]
    omega
  rcases step_str ht with ⟨rfl, -⟩ | ⟨esc, acc, hr, rfl, hquote⟩
  · -- The character is a quote.
    refine .inl ⟨q, by omega, completes_of_put (run_fits hs (finish_fits hj))⟩
  · -- The character is a backslash.
    have hesc : esc = .backslash ∧ acc = q := by
      simp only [strStep] at hr
      split at hr
      · cases hr
      · split at hr
        · cases hr
          exact ⟨rfl, rfl⟩
        · rename_i hlt hne
          exact absurd ⟨BitVec.not_lt.mp hlt, hquote rfl, hne⟩ hc
    obtain ⟨rfl, rfl⟩ := hesc
    rw [run_append] at hs
    obtain ⟨u, hu, hrest⟩ := Option.bind_eq_some_iff.mp hs
    rcases run_str hu with ⟨esc', acc', rfl, hle⟩ | ⟨v, bs', hlt, hput⟩
    · have := esc'.slack_pos
      change acc'.length + esc'.slack ≤ acc.length + 1 + r.length at hle
      exact .inr ⟨esc', acc', by omega, Option.bind_eq_some_iff.mpr ⟨s, hrest, hj⟩⟩
    · simp only [Escape.slack] at hlt
      refine .inl ⟨v, by omega, completes_of_put (run_fits hput ?_)⟩
      exact run_fits hrest (finish_fits hj)

end Json
