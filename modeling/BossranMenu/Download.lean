import BossranMenu.Authenticator

/-!
# The two read loops (`authenticator.h`, `AntiCheat.h`)

A `Delivery` says what a server sends and from which round on a call of the loop fails for good; it
fixes the outcome of every round. `readLoop` is the loop of `DownloadContentFromUrl`, `ipReadLoop`
the one of `AntiCheat::GetIPAddress`.

* `loop_chunks`: both loops collect the chunks, up to the first round that brings none.
* `ipReadLoop_returns`: `ipReadLoop` ends with what was read, whatever fails.
* `download_returns_iff`: `readLoop` does so unless reads fail for good while every later query
  succeeds and reports a positive size; then it never ends.
-/

namespace Bossran

open Handles

/-- A chunk of the body: the size that `WinHttpQueryDataAvailable` reports, and what
`WinHttpReadData` then reads. -/
structure Chunk where
  announced : DWORD
  data : List BYTE
  announced_pos : announced > 0
  fits : data.length ≤ announced.toNat

/-- The call that fails for good. -/
inductive Failure where
  | query
  /-- Reads fail; the query of a round reports a size, or fails too. -/
  | read (reports : Nat → Option DWORD)

structure Delivery where
  chunks : List Chunk
  /-- The first round of the failure, if there is one. -/
  failure : Option (Nat × Failure)

namespace Delivery

/-- Round `i` while no call fails. After the last chunk there is nothing more to read. -/
def healthy (d : Delivery) (i : Nat) : Round :=
  match d.chunks[i]? with
  | some c => .available c.announced (some c.data)
  | none => .available 0 (some [])

end Delivery

def Failure.round (f : Failure) (i : Nat) : Round :=
  match f with
  | .query => .queryFailed
  | .read reports =>
    match reports i with
    | some size => .available size none
    | none => .queryFailed

namespace Delivery

def round (d : Delivery) (i : Nat) : Round :=
  match d.failure with
  | some (k, f) => if i < k then d.healthy i else f.round i
  | none => d.healthy i

/-- The `n` rounds from round `i` on. -/
def rounds (d : Delivery) (i n : Nat) : List Round := (List.range' i n).map d.round

/-- A download whose other calls succeed, with the first `n` rounds. -/
def calls (d : Delivery) (n : Nat) : HttpCalls := ⟨true, true, true, true, true, d.rounds 0 n⟩

/-- How many chunks are read successfully. -/
def readCount (d : Delivery) : Nat :=
  match d.failure with
  | some (k, _) => min k d.chunks.length
  | none => d.chunks.length

/-- What is read successfully, in order. -/
def received (d : Delivery) : List BYTE := (d.chunks.take d.readCount).flatMap (·.data)

/-- The download ends and returns what was read. -/
def Returns (d : Delivery) : Prop := ∃ n, ∀ m ≥ n, (d.calls m).body = some d.received

/-- If reads fail for good before the end of the body, a later query fails or reports nothing to
read. -/
def ReportsEnd (d : Delivery) : Prop :=
  ∀ k reports, d.failure = some (k, .read reports) → k ≤ d.chunks.length →
    ∃ i ≥ k, (reports i).getD 0 = 0

end Delivery

/-- The read loop of `AntiCheat::GetIPAddress`. -/
def ipReadLoop : List Round → List BYTE → Option (List BYTE)
  | [], _ => none
  | .queryFailed :: _, response => some response
  | .available _ none :: _, response => some response
  | .available dwSize (some read) :: rounds, response =>
    if dwSize > 0 then ipReadLoop rounds (response ++ read) else some (response ++ read)

/-! ## The loop of `DownloadContentFromUrl` without its buffers -/

/-- What the read loop returns, whatever it has opened and closed. -/
def collect : List Round → List BYTE → Option (List BYTE)
  | [], _ => none
  | .queryFailed :: _, response => some response
  | .available dwSize none :: rounds, response =>
    if dwSize > 0 then collect rounds response else some response
  | .available dwSize (some read) :: rounds, response =>
    if dwSize > 0 then collect rounds (response ++ read) else some (response ++ read)

theorem readLoop_run' (rounds : List Round) (response : List BYTE) (es : List (Event Resource)) :
    (readLoop rounds response).run' es = collect rounds response := by
  induction rounds generalizing response es with
  | nil => rfl
  | cons round rounds ih =>
    cases round with
    | queryFailed => rfl
    | available dwSize chunk =>
      unfold readLoop
      by_cases hd : dwSize > 0 <;> cases chunk <;> simp only [collect, hd, if_true, if_false]
      · exact ih _ _
      · exact ih _ _
      · rfl
      · rfl

/-- With the other calls successful, the body is what the loop returns. -/
theorem calls_body (rounds : List Round) :
    (HttpCalls.mk true true true true true rounds).body = collect rounds [] := by
  let opened : List (Event Resource) := [.opened .hSession, .opened .hConnect, .opened .hRequest]
  have hloop : (HttpCalls.mk true true true true true rounds).body =
      (((readLoop rounds []).run opened).bind fun q => some (q.1, q.2 ++ [.closed .hRequest] ++
        [.closed .hConnect] ++ [.closed .hSession])).map Prod.fst := rfl
  have hrun : (readLoop rounds []).run' opened =
      ((readLoop rounds []).run opened).map Prod.fst := rfl
  rw [hloop, ← readLoop_run' rounds [] opened, hrun]
  cases (readLoop rounds []).run opened <;> rfl

/-! ## The rounds of a delivery -/

namespace Delivery

variable (d : Delivery)

theorem rounds_succ (i n : Nat) : d.rounds i (n + 1) = d.round i :: d.rounds (i + 1) n := rfl

theorem readCount_le : d.readCount ≤ d.chunks.length := by
  unfold readCount
  split <;> omega

/-- Before the failure, a round brings its chunk. -/
theorem round_chunk {i : Nat} (hi : i < d.readCount) :
    ∃ c, d.chunks[i]? = some c ∧ d.round i = .available c.announced (some c.data) := by
  have hlt : i < d.chunks.length := Nat.lt_of_lt_of_le hi d.readCount_le
  refine ⟨d.chunks[i], List.getElem?_eq_getElem hlt, ?_⟩
  have hhealthy : d.healthy i = .available d.chunks[i].announced (some d.chunks[i].data) := by
    rw [healthy, List.getElem?_eq_getElem hlt]
  unfold round
  split
  · rename_i k f hf
    simp only [readCount, hf] at hi
    rw [if_pos (by omega), hhealthy]
  · exact hhealthy

/-- The first round that brings no chunk: the body is at its end, or a call fails from here on. -/
theorem round_readCount :
    d.round d.readCount = .available 0 (some []) ∨
    ∃ f, d.failure = some (d.readCount, f) ∧ d.readCount ≤ d.chunks.length ∧
      ∀ i ≥ d.readCount, d.round i = f.round i := by
  have hend : d.healthy d.chunks.length = .available 0 (some []) := by
    rw [healthy, List.getElem?_eq_none (Nat.le_refl _)]
  cases hf : d.failure with
  | none =>
    left
    simp only [round, readCount, hf]
    exact hend
  | some q =>
    obtain ⟨k, f⟩ := q
    by_cases hk : k ≤ d.chunks.length
    · right
      have hc : d.readCount = k := by
        simp only [readCount, hf]
        omega
      refine ⟨f, by rw [hc], by omega, fun i hi => ?_⟩
      simp only [round, hf]
      rw [if_neg (by omega)]
    · left
      have hc : d.readCount = d.chunks.length := by
        simp only [readCount, hf]
        omega
      rw [hc]
      simp only [round, hf]
      rw [if_pos (by omega)]
      exact hend

/-- A loop that appends what a round brings collects the chunks first. -/
theorem loop_chunks {loop : List Round → List BYTE → Option (List BYTE)}
    (hloop : ∀ dwSize > 0, ∀ read rounds response,
      loop (.available dwSize (some read) :: rounds) response = loop rounds (response ++ read))
    {j : Nat} (hj : j ≤ d.readCount) (n : Nat) :
    loop (d.rounds 0 (j + n)) [] =
      loop (d.rounds j n) ((d.chunks.take j).flatMap (·.data)) := by
  induction j generalizing n with
  | zero => simp
  | succ j ih =>
    obtain ⟨c, hc, hround⟩ := d.round_chunk hj
    rw [show j + 1 + n = j + (n + 1) by omega, ih (by omega), rounds_succ, hround,
      hloop _ c.announced_pos, List.take_add_one, hc]
    simp

end Delivery

/-! ## The loop of `GetIPAddress` -/

/-- The loop ends, and returns what was read, whatever fails. -/
theorem ipReadLoop_returns (d : Delivery) :
    ∃ n, ∀ m ≥ n, ipReadLoop (d.rounds 0 m) [] = some d.received := by
  refine ⟨d.readCount + 1, fun m hm => ?_⟩
  obtain ⟨n, rfl⟩ := Nat.exists_eq_add_of_le hm
  have hloop : ∀ dwSize > 0, ∀ read rounds response,
      ipReadLoop (.available dwSize (some read) :: rounds) response =
        ipReadLoop rounds (response ++ read) := fun _ hd _ _ _ => if_pos hd
  rw [show d.readCount + 1 + n = d.readCount + (n + 1) by omega,
    d.loop_chunks hloop (Nat.le_refl _), Delivery.rounds_succ]
  rcases d.round_readCount with hend | ⟨f, -, -, hround⟩
  · rw [hend]
    simp [ipReadLoop, Delivery.received]
  · rw [hround _ (Nat.le_refl _)]
    cases f with
    | query => rfl
    | read reports =>
      rw [Failure.round]
      cases reports d.readCount <;> rfl

/-! ## The loop of `DownloadContentFromUrl` -/

/-- With failing reads only, the loop goes round until a query fails or reports nothing to read. -/
theorem collect_reads_fail {reports : Nat → Option DWORD} {i j n : Nat} (response : List BYTE)
    (hij : i ≤ j) (hj : j < i + n) (h0 : (reports j).getD 0 = 0) :
    collect ((List.range' i n).map (Failure.read reports).round) response = some response := by
  induction n generalizing i with
  | zero => omega
  | succ n ih =>
    rw [List.range'_succ, List.map_cons, Failure.round]
    cases hr : reports i with
    | none => rfl
    | some size =>
      dsimp only
      rw [collect]
      split
      · rename_i hpos
        have hne : i ≠ j := by
          rintro rfl
          rw [hr, Option.getD_some] at h0
          rw [h0] at hpos
          exact absurd hpos (by decide)
        exact ih (by omega) (by omega)
      · rfl

theorem collect_reads_forever {reports : Nat → Option DWORD} (i n : Nat) (response : List BYTE)
    (h : ∀ j ≥ i, (reports j).getD 0 ≠ 0) :
    collect ((List.range' i n).map (Failure.read reports).round) response = none := by
  induction n generalizing i with
  | zero => rfl
  | succ n ih =>
    have hi := h i (Nat.le_refl i)
    rw [List.range'_succ, List.map_cons, Failure.round]
    cases hr : reports i with
    | none =>
      rw [hr] at hi
      exact absurd rfl hi
    | some size =>
      rw [hr, Option.getD_some] at hi
      have hpos : size > 0 := (BitVec.pos_iff_ne_zero _).mpr hi
      dsimp only
      rw [collect, if_pos hpos]
      exact ih (i + 1) fun j hj => h j (by omega)

theorem Delivery.body_eq (d : Delivery) (n : Nat) :
    (d.calls (d.readCount + n)).body = collect (d.rounds d.readCount n) d.received := by
  have hloop : ∀ dwSize > 0, ∀ read rounds response,
      collect (.available dwSize (some read) :: rounds) response =
        collect rounds (response ++ read) := fun _ hd _ _ _ => if_pos hd
  rw [Delivery.calls, calls_body, d.loop_chunks hloop (Nat.le_refl _)]
  rfl

/-- A download whose reads fail for good, while every query succeeds and reports something, never
ends. -/
theorem Delivery.body_none {d : Delivery} (h : ¬ d.ReportsEnd) (n : Nat) :
    (d.calls (d.readCount + n)).body = none := by
  unfold Delivery.ReportsEnd at h
  push Not at h
  obtain ⟨k, reports, hf, hk, hpos⟩ := h
  have hc : d.readCount = k := by
    simp only [Delivery.readCount, hf]
    omega
  have hrounds : d.rounds k n = (List.range' k n).map (Failure.read reports).round := by
    refine List.map_congr_left fun i hi => ?_
    have hki := (List.mem_range'_1.mp hi).1
    simp only [Delivery.round, hf]
    rw [if_neg (by omega)]
  rw [d.body_eq, hc, hrounds]
  exact collect_reads_forever k n _ hpos

/-- The download ends with what was read, unless reads fail for good while every query still
succeeds and reports something to read. -/
theorem download_returns_iff (d : Delivery) : d.Returns ↔ d.ReportsEnd := by
  constructor
  · rintro ⟨n, hn⟩
    by_contra h
    have hbody := hn (d.readCount + n) (by omega)
    rw [Delivery.body_none h] at hbody
    cases hbody
  · intro h
    rcases d.round_readCount with hend | ⟨f, hf, hk, hround⟩
    · refine ⟨d.readCount + 1, fun m hm => ?_⟩
      obtain ⟨n, rfl⟩ := Nat.exists_eq_add_of_le hm
      rw [Nat.add_assoc, d.body_eq, Nat.add_comm, Delivery.rounds_succ, hend]
      simp [collect]
    · have hrounds : ∀ n, d.rounds d.readCount n = (List.range' d.readCount n).map f.round :=
        fun n => List.map_congr_left fun i hi => hround i (List.mem_range'_1.mp hi).1
      cases f with
      | query =>
        refine ⟨d.readCount + 1, fun m hm => ?_⟩
        obtain ⟨n, rfl⟩ := Nat.exists_eq_add_of_le hm
        rw [Nat.add_assoc, d.body_eq, hrounds, Nat.add_comm]
        rfl
      | read reports =>
        obtain ⟨i, hi, h0⟩ := h _ _ hf hk
        refine ⟨i + 1, fun m hm => ?_⟩
        obtain ⟨n, rfl⟩ := Nat.exists_eq_add_of_le (show d.readCount ≤ m by omega)
        rw [d.body_eq, hrounds]
        exact collect_reads_fail _ hi (by omega) h0

/-- Every read fails, and every query reports one byte. -/
def deadConnection : Delivery := ⟨[], some (0, .read fun _ => some 1)⟩

/-- The loop never ends there; the one of `GetIPAddress` returns at once. -/
theorem not_download_returns_deadConnection :
    ¬ deadConnection.Returns ∧ (∀ n, (deadConnection.calls n).body = none) ∧
      ipReadLoop (deadConnection.rounds 0 1) [] = some [] := by
  have h : ¬ deadConnection.ReportsEnd := by
    intro h
    obtain ⟨i, -, hi⟩ := h 0 _ rfl (Nat.le_refl 0)
    cases hi
  refine ⟨fun hr => ?_, fun n => ?_, rfl⟩
  · obtain ⟨n, hn⟩ := hr
    have hbody := hn (deadConnection.readCount + n) (by omega)
    rw [Delivery.body_none h] at hbody
    cases hbody
  · have hbody := Delivery.body_none h n
    rwa [show deadConnection.readCount = 0 from rfl, Nat.zero_add] at hbody

end Bossran
