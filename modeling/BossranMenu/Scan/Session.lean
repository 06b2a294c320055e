import BossranMenu.Scan.Toggles

/-!
# Sessions of the patcher

What happens after `ScriptCaving`: flags change, `BooleanFunct` is called, the worker visits slots,
and other code writes wherever the patcher does not.

* `writtenRanges`: every range that `ScriptCaving`, `BooleanFunct` and its worker write.
* `session`: a sequence of such steps. It keeps the site variables (`session_site`), hence the
  regions of the ranges (`session_regions`).
* `booleanFunct_reads`: if the regions are pairwise disjoint, every `WriteBytes` call of
  `BooleanFunct` reads back after it.
-/

namespace Bossran

open Memory

/-- The ranges that `ScriptCaving`, `BooleanFunct` and the worker write (a slot that the worker's
table lists twice counts once). -/
def writtenRanges : List (Target × Nat) :=
  cavingStmts.filterMap CavingStmt.range ++ toggleRanges ++
    workerAddresses.eraseDups.map fun a => (.fixed a, replacementValue.length)

/-- The regions of `writtenRanges`, given the site variables. -/
def regionsAt (site : Site → DWORD) : List (Region 32) :=
  writtenRanges.map fun r => ⟨r.1.address site, r.2⟩

def World.regions (s : World) : List (Region 32) := regionsAt s.site

inductive Step where
  | setFlags (flags : Flags)
  | booleanFunct
  /-- The worker thread, if it was launched, handles one address of its table. -/
  | workerVisit (address : DWORD)
  /-- Anybody else writes `bytes`, outside the regions of the patcher. -/
  | other (bytes : DWORD → BYTE)

def Step.exec (s : World) : Step → World
  | .setFlags flags => { s with flags }
  | .booleanFunct => Bossran.booleanFunct s
  | .workerVisit address =>
    if s.started ∧ address ∈ workerAddresses then s.workerVisit address else s
  | .other bytes =>
    { s with mem := { s.mem with
        bytes := fun x => if ∃ r ∈ s.regions, x ∈ r then s.mem.bytes x else bytes x } }

def session (s : World) (steps : List Step) : World := steps.foldl Step.exec s

theorem session_append (s : World) (steps steps' : List Step) :
    session s (steps ++ steps') = session (session s steps) steps' := by
  simp [session]

theorem session_snoc (s : World) (steps : List Step) (a : Step) :
    session s (steps ++ [a]) = a.exec (session s steps) := by
  simp [session]

theorem World.workerVisit_site (s : World) (a : DWORD) : (s.workerVisit a).site = s.site := by
  unfold World.workerVisit
  split <;> rfl

/-- No step assigns a site variable. -/
theorem Step.exec_site (a : Step) (s : World) : (a.exec s).site = s.site := by
  cases a with
  | setFlags => rfl
  | booleanFunct => exact booleanFunct_site s
  | workerVisit address =>
    simp only [Step.exec]
    split
    · exact s.workerVisit_site address
    · rfl
  | other => rfl

theorem session_site (s : World) (steps : List Step) : (session s steps).site = s.site := by
  induction steps generalizing s with
  | nil => rfl
  | cons a steps ih => exact (ih _).trans (a.exec_site s)

theorem session_regions (s : World) (steps : List Step) :
    (session s steps).regions = s.regions :=
  congrArg regionsAt (session_site s steps)

/-! ## A call of `BooleanFunct` with disjoint regions -/

/-- The stores of a call keep to the regions of the patcher, each to its own. -/
theorem writes_regions_sublist (s : World) (flags : Flags) :
    ((s.writes (toggleCalls flags)).map Write.region).Sublist s.regions := by
  have h := (toggleCalls_sublist flags).map fun r : Target × Nat =>
    (⟨s.address r.1, r.2⟩ : Region 32)
  have hsub : toggleRanges.Sublist writtenRanges :=
    (List.sublist_append_right _ _).trans (List.sublist_append_left _ _)
  refine List.Sublist.trans ?_ (h.trans (hsub.map _))
  rw [World.writes, List.map_map, List.map_map]
  exact List.Sublist.refl _

/-- After `BooleanFunct`, each of its `WriteBytes` calls reads back, if no two regions overlap. -/
theorem booleanFunct_reads {s : World} (hd : s.regions.Pairwise Region.Disjoint)
    {c : Target × List BYTE} (hc : c ∈ toggleCalls s.flags) :
    Reads (booleanFunct s).mem.bytes (s.address c.1) c.2 := by
  rw [booleanFunct_mem]
  refine writeAll_reads (e := ⟨s.address c.1, c.2⟩) ?_ ?_ (List.mem_map_of_mem hc)
  · intro e he
    obtain ⟨d, hd', rfl⟩ := List.mem_map.mp he
    have := (toggleCalls_small hd').2
    simp only
    omega
  · exact List.pairwise_map.mp (hd.sublist (writes_regions_sublist s s.flags))

end Bossran
