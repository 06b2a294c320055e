import BossranMenu.Scan.Worker
import Mathlib.Tactic.IntervalCases

/-!
# A sweep of the slot worker (`Scan.h`)

The slots are fifteen records of four bytes at a stride of `0xA8`; the table of the worker names
them by hand. `World.sweep` is one round of its inner loop.

* `exec_sweep`: the worker, left alone, makes a sweep between two sleeps.
* `sweepTable_spec`: what a sweep over any table of separate slots does, repeated entries included.
* `sweep_covers_iff`: the table repeats an entry in the place of slot 7, so a sweep covers the
  slots exactly when slot 7 holds no target value.
-/

namespace Bossran

open Memory

/-- The inner loop of the worker over what is left of its table. -/
def World.sweepTable (s : World) (addresses : List DWORD) : World :=
  addresses.foldl World.workerVisit s

/-- One complete sweep. -/
def World.sweep (s : World) : World := s.sweepTable workerAddresses

/-- The 4-byte record `k`. -/
def slot (k : Nat) : DWORD := 0x02678E54 + BitVec.ofNat 32 (0xA8 * k)

/-- What a sweep that covers the fifteen slots makes of memory `m`. -/
structure Covers (m m' : DWORD → BYTE) : Prop where
  clean : ∀ k < 15, readBuffer m' (slot k) ∉ targetValues
  replaced : ∀ k < 15, readBuffer m (slot k) ∈ targetValues →
    readBuffer m' (slot k) = replacementValue
  kept : ∀ k < 15, readBuffer m (slot k) ∉ targetValues →
    readBuffer m' (slot k) = readBuffer m (slot k)
  frame : ∀ x, (∀ k < 15, x ∉ (⟨slot k, 4⟩ : Region 32)) → m' x = m x

/-! ## A visit -/

/-- What a visit makes of the four bytes that it finds. -/
def visited (buffer : List BYTE) : List BYTE :=
  if targetValues.contains buffer then replacementValue else buffer

theorem visited_of_mem {buffer : List BYTE} (h : buffer ∈ targetValues) :
    visited buffer = replacementValue :=
  if_pos (List.contains_iff_mem.mpr h)

theorem visited_of_notMem {buffer : List BYTE} (h : buffer ∉ targetValues) :
    visited buffer = buffer :=
  if_neg fun hc => h (List.contains_iff_mem.mp hc)

theorem replacementValue_notMem : replacementValue ∉ targetValues := by decide

theorem visited_notMem (buffer : List BYTE) : visited buffer ∉ targetValues := by
  by_cases h : buffer ∈ targetValues
  · rw [visited_of_mem h]
    exact replacementValue_notMem
  · rwa [visited_of_notMem h]

@[simp] theorem visited_visited (buffer : List BYTE) : visited (visited buffer) = visited buffer :=
  visited_of_notMem (visited_notMem buffer)

theorem readBuffer_congr {m m' : DWORD → BYTE} {a : DWORD}
    (h : ∀ x ∈ (⟨a, 4⟩ : Region 32), m' x = m x) : readBuffer m' a = readBuffer m a := by
  have hr : Reads m a (readBuffer m a) := (reads_iff_readBuffer m a rfl).mpr rfl
  exact (reads_iff_readBuffer m' a rfl).mp (hr.congr h)

theorem workerVisit_bytes (s : World) (a : DWORD) : (s.workerVisit a).mem.bytes =
    if readBuffer s.mem.bytes a ∈ targetValues then store s.mem.bytes a replacementValue
    else s.mem.bytes := by
  simp only [readBuffer_mem, World.workerVisit]
  split <;> rfl

theorem workerVisit_self (s : World) (a : DWORD) :
    readBuffer (s.workerVisit a).mem.bytes a = visited (readBuffer s.mem.bytes a) := by
  rw [workerVisit_bytes]
  split
  · rename_i ht
    rw [visited_of_mem ht]
    exact (reads_iff_readBuffer _ _ rfl).mp (store_reads _ _ (by decide))
  · rename_i ht
    exact (visited_of_notMem ht).symm

theorem workerVisit_frame (s : World) {a x : DWORD} (hx : x ∉ (⟨a, 4⟩ : Region 32)) :
    (s.workerVisit a).mem.bytes x = s.mem.bytes x := by
  rw [workerVisit_bytes]
  split
  · exact store_of_notMem (by decide) hx
  · rfl

/-! ## A sweep -/

/-- Two entries of a table are the same slot, or two slots apart. -/
def SameOrApart (a b : DWORD) : Prop := a = b ∨ Region.Disjoint (w := 32) ⟨a, 4⟩ ⟨b, 4⟩

/-- A sweep leaves every slot of its table as one visit does, and the rest of memory alone. -/
theorem sweepTable_spec (s : World) {addresses : List DWORD}
    (h : addresses.Pairwise SameOrApart) :
    (∀ a ∈ addresses, readBuffer (s.sweepTable addresses).mem.bytes a =
      visited (readBuffer s.mem.bytes a)) ∧
    ∀ x, (∀ a ∈ addresses, x ∉ (⟨a, 4⟩ : Region 32)) →
      (s.sweepTable addresses).mem.bytes x = s.mem.bytes x := by
  induction addresses generalizing s with
  | nil => exact ⟨by simp, fun _ _ => rfl⟩
  | cons a addresses ih =>
    obtain ⟨ha, hrest⟩ := List.pairwise_cons.mp h
    obtain ⟨hslots, hframe⟩ := ih (s.workerVisit a) hrest
    have hself := workerVisit_self s a
    refine ⟨fun b hb => ?_, fun x hx => ?_⟩
    · by_cases hba : b ∈ addresses
      · -- a later visit of the same slot changes nothing more
        refine (hslots b hba).trans ?_
        rcases ha b hba with rfl | hd
        · rw [hself, visited_visited]
        · rw [readBuffer_congr fun x hx => workerVisit_frame s (hd.symm x hx)]
      · obtain rfl : b = a := (List.mem_cons.mp hb).resolve_right hba
        rw [← hself]
        refine readBuffer_congr fun x hx => hframe x fun c hc => ?_
        rcases ha c hc with rfl | hd
        · exact absurd hc hba
        · exact hd x hx
    · refine (hframe x fun c hc => hx c (List.mem_cons_of_mem _ hc)).trans ?_
      exact workerVisit_frame s (hx a (List.mem_cons_self ..))

/-- The worker alone, from the head of its inner loop: two steps for every address. -/
theorem exec_sweep (s : World) (addresses : List DWORD) :
    (fun p : World × WorkerPc => p.2.exec p.1)^[2 * addresses.length] (s, .next addresses) =
      (s.sweepTable addresses, .next []) := by
  induction addresses generalizing s with
  | nil => rfl
  | cons a addresses ih =>
    have hvisit : (fun p : World × WorkerPc => p.2.exec p.1)^[2] (s, .next (a :: addresses)) =
        (s.workerVisit a, .next addresses) := visit_eq_workerVisit s a addresses
    rw [List.length_cons, Nat.mul_succ, Function.iterate_add_apply, hvisit]
    exact ih (s.workerVisit a)

/-! ## The table -/

theorem workerAddresses_pairwise : workerAddresses.Pairwise SameOrApart := by
  have h : workerAddresses.Pairwise fun a b =>
      a = b ∨ a.toNat + 4 ≤ b.toNat ∧ b.toNat + 4 ≤ 2 ^ 32 := by decide
  exact h.imp fun hab => hab.imp_right fun ⟨ha, hb⟩ => Region.disjoint_of_toNat ha hb

/-- The table names every slot but slot 7. -/
theorem slot_mem_iff {k : Nat} (hk : k < 15) : slot k ∈ workerAddresses ↔ k ≠ 7 := by
  interval_cases k <;> decide

/-- Every entry of the table is a slot. -/
theorem exists_slot {a : DWORD} (ha : a ∈ workerAddresses) : ∃ k < 15, slot k = a := by
  have h : workerAddresses = [0, 1, 2, 3, 4, 5, 6, 6, 8, 9, 10, 11, 12, 13, 14].map slot := by
    decide
  rw [h] at ha
  obtain ⟨k, hk, rfl⟩ := List.mem_map.mp ha
  refine ⟨k, ?_, rfl⟩
  revert k
  decide

/-- Slot 7 lies above the first eight entries of the table and below the others. -/
theorem slot_seven_apart {a : DWORD} (ha : a ∈ workerAddresses) :
    Region.Disjoint (w := 32) ⟨slot 7, 4⟩ ⟨a, 4⟩ := by
  have h7 : slot 7 = 0x026792EC := by decide
  have hbelow : ∀ a ∈ workerAddresses.take 8,
      a.toNat + 4 ≤ (0x026792EC : DWORD).toNat := by simp [workerAddresses]
  have habove : ∀ a ∈ workerAddresses.drop 8,
      (0x026792EC : DWORD).toNat + 4 ≤ a.toNat ∧ a.toNat + 4 ≤ 2 ^ 32 := by
    simp [workerAddresses]
  rw [h7]
  rw [← List.take_append_drop 8 workerAddresses] at ha
  rcases List.mem_append.mp ha with ha | ha
  · exact (Region.disjoint_of_toNat (hbelow a ha) (by decide)).symm
  · exact Region.disjoint_of_toNat (habove a ha).1 (habove a ha).2

theorem readBuffer_sweep (s : World) {k : Nat} (hk : k < 15) :
    readBuffer s.sweep.mem.bytes (slot k) =
      if k = 7 then readBuffer s.mem.bytes (slot k)
      else visited (readBuffer s.mem.bytes (slot k)) := by
  obtain ⟨hslots, hframe⟩ := sweepTable_spec s workerAddresses_pairwise
  rw [World.sweep]
  split
  · rename_i h7
    subst h7
    exact readBuffer_congr fun x hx => hframe x fun a ha => slot_seven_apart ha x hx
  · rename_i h7
    exact hslots _ ((slot_mem_iff hk).mpr h7)

/-- A sweep covers the slots exactly when slot 7 holds no target value. -/
theorem sweep_covers_iff (s : World) :
    Covers s.mem.bytes s.sweep.mem.bytes ↔ readBuffer s.mem.bytes (slot 7) ∉ targetValues := by
  constructor
  · intro h
    have h7 := h.clean 7 (by decide)
    rwa [readBuffer_sweep s (by decide), if_pos rfl] at h7
  · intro h7
    have hvisited : ∀ k < 15, readBuffer s.sweep.mem.bytes (slot k) =
        visited (readBuffer s.mem.bytes (slot k)) := by
      intro k hk
      rw [readBuffer_sweep s hk]
      split
      · rename_i hk7
        subst hk7
        exact (visited_of_notMem h7).symm
      · rfl
    exact {
      clean := fun k hk => hvisited k hk ▸ visited_notMem _
      replaced := fun k hk ht => (hvisited k hk).trans (visited_of_mem ht)
      kept := fun k hk ht => (hvisited k hk).trans (visited_of_notMem ht)
      frame := fun x hx => by
        rw [World.sweep]
        refine (sweepTable_spec s workerAddresses_pairwise).2 x fun a ha => ?_
        obtain ⟨k, hk, rfl⟩ := exists_slot ha
        exact hx k hk }

/-- The first of the target values is in slot 7. -/
def dogSlotSeven : DWORD → BYTE := store (fun _ => 0) (slot 7) [0x38, 0x00, 0x26, 0x00]

theorem readBuffer_dogSlotSeven :
    readBuffer dogSlotSeven (slot 7) = [0x38, 0x00, 0x26, 0x00] :=
  (reads_iff_readBuffer _ _ rfl).mp (store_reads _ _ (by decide))

/-- The sweep leaves it there. -/
theorem not_sweep_covers_dogSlotSeven :
    let s := World.init ⟨dogSlotSeven, fun _ => 0x40⟩
    ¬ Covers s.mem.bytes s.sweep.mem.bytes ∧
      readBuffer s.sweep.mem.bytes (slot 7) = [0x38, 0x00, 0x26, 0x00] := by
  intro s
  have hs : readBuffer s.sweep.mem.bytes (slot 7) = [0x38, 0x00, 0x26, 0x00] := by
    rw [readBuffer_sweep s (by decide), if_pos rfl]
    exact readBuffer_dogSlotSeven
  refine ⟨fun h => h.clean 7 (by decide) ?_, hs⟩
  rw [hs]
  decide

end Bossran
