-- SUMMARY: In every run whose reads and throws leave the drive of each event to reach its units, the cells of the registry are folds of the log and its snapshots refold it.
import Harness.Projections.RegistryDrive
import Harness.Projections.Restore

/-!
# What the cells hold

The cells as folds of the log and the snapshots as refolds of it, in every orderly run, and
the runs of a counting unit in which they are not.
-/

namespace Harness.SessionProjections

open List Transitions

variable {S V Id : Type} [DecidableEq Id]

/-! ## Statements -/

namespace Registry

/-- The cell of a session, in the unit at `place`, is the fold of the log up to its
watermark. -/
def CellRefolds (r : Registry S V Id) (place : Nat) (id : Id) : Prop :=
  ∀ registration ∈ r.registrations, registration.place = place →
    ∀ cell, registration.cells id = some cell →
      -1 ≤ cell.observedSeq ∧ cell.observedSeq < (r.logs id).length ∧
      registration.definition.fold ((r.logs id).take (cell.observedSeq + 1).toNat) =
        some cell.state

/-- What a snapshot taken now shows of the unit at `place` is the value of the full refold
at its `asOfSeq`, the end of the log. -/
def SnapshotRefolds (r : Registry S V Id) (place : Nat) (id : Id) : Prop :=
  ∀ snapshot, (r.snapshot id).1 = some snapshot →
    snapshot.asOfSeq = ((r.logs id).length : Int) - 1 ∧
    ∀ registration ∈ r.registrations, registration.place = place →
      ∃ value, (registration.definition.key, value) ∈ snapshot.values ∧
        (registration.definition.fold ((r.logs id).take (snapshot.asOfSeq + 1).toNat)).bind
          registration.definition.value = some value

variable {r : Registry S V Id} {place : Nat} {id : Id}

/-! ## Orderly runs -/

/-- A unit that is caught up holds the fold of the log up to its watermark. -/
theorem CaughtUp.cellRefolds (h : CaughtUp place id r) : r.CellRefolds place id := by
  intro registration hmem hplace cell hcell
  obtain ⟨hfold, hseq⟩ := h.cells registration hmem hplace cell hcell
  have hdriven : r.driven place id <+: r.logs id := by
    rw [driven]
    split
    · exact dropLast_prefix _
    · exact prefix_rfl
  have htake : (r.logs id).take (cell.observedSeq + 1).toNat = r.driven place id := by
    have hcount : (cell.observedSeq + 1).toNat = (r.driven place id).length := by omega
    rw [hcount]
    exact (prefix_iff_eq_take.mp hdriven).symm
  have hlength := hdriven.length_le
  rw [htake]
  exact ⟨by omega, by omega, hfold⟩

/-- An orderly snapshot shows the refold of the whole log. -/
theorem CaughtUp.snapshotRefolds (h : CaughtUp place id r)
    (horderly : Orderly place id r (.snapshot id)) : r.SnapshotRefolds place id := by
  intro snapshot hsnapshot
  obtain ⟨values, hvalues, rfl⟩ := Option.map_eq_some_iff.mp hsnapshot
  refine ⟨rfl, ?_⟩
  intro registration hmem hplace
  obtain ⟨hreach, cell, value, hcell, hvalue, hshown⟩ := readAll_returns hvalues hmem
  have hawaits : r.awaiting place id = false := by
    cases hawaits : r.awaiting place id with
    | false => rfl
    | true =>
      have hnot := horderly rfl hawaits
      rw [← hplace, hreach] at hnot
      cases hnot
  have hdriven : r.driven place id = r.logs id := by
    rw [driven, hawaits]
    rfl
  have hfold : registration.definition.fold (r.logs id) = some cell.state := by
    cases hhad : registration.cells id with
    | some had =>
      rw [Registration.cellOver, hhad, Option.some.injEq] at hcell
      exact hdriven ▸ (h.cells registration hmem hplace cell (hcell ▸ hhad)).1
    | none =>
      rw [Registration.cellOver, hhad] at hcell
      exact (h.toInv.buildCell prefix_rfl hcell).1
  refine ⟨value, hshown, ?_⟩
  have hall : (((r.logs id).length : Int) - 1 + 1).toNat = (r.logs id).length := by omega
  rw [hall, take_length, hfold]
  exact hvalue

/-- In a run whose steps are orderly for a unit and a session, the unit's cell is the fold of
the log up to its watermark, and every snapshot taken of the session shows of the unit the
full refold at its `asOfSeq`. -/
theorem cells_refold {logs : Id → List SessionEvent} (hlogs : ∀ id, Numbered (logs id))
    {acts : List (Action S V Id)} (hrun : run step (Registry.start logs) acts = some r)
    (horderly : ∀ pre act before, pre ++ [act] <+: acts →
      run step (Registry.start logs) pre = some before → Orderly place id before act) :
    r.CellRefolds place id ∧
      ∀ pre before, pre ++ [.snapshot id] <+: acts →
        run step (Registry.start logs) pre = some before → before.SnapshotRefolds place id := by
  have hcaught : ∀ pre before, pre <+: acts →
      run step (Registry.start logs) pre = some before → CaughtUp place id before := by
    intro pre before hpre hbefore
    exact run_along (fun _ _ _ h horderly hstep => h.step horderly hstep) (CaughtUp.start hlogs)
      (fun pre' act r₁ hpre' => horderly pre' act r₁ (hpre'.trans hpre)) hbefore
  refine ⟨(hcaught acts r prefix_rfl hrun).cellRefolds, ?_⟩
  intro pre before hpre hbefore
  exact (hcaught pre before ((prefix_append _ _).trans hpre) hbefore).snapshotRefolds
    (horderly pre _ before hpre hbefore)

/-! ## Runs on a counting unit -/

/-- Counts the events of its session. -/
def counting : ProjectionDefinition Nat Nat where
  key := "count"
  schema := some
  init := 0
  apply count _ := some (.changed (count + 1))
  view := some
  stateVersion := 1

/-- Counts too, and its view throws on the first count. -/
def throwing : ProjectionDefinition Nat Nat where
  key := "throwing"
  schema := some
  init := 0
  apply count _ := some (.changed (count + 1))
  view count := if count = 1 then none else some count
  stateVersion := 1

def turnStart (seq : Nat) : SessionEvent := { seq, time := 0, data := .turnStart seq }

/-- One append, driven through the unit and read after it. -/
def drivenOnce : List (Action Nat Nat Unit) :=
  [.register counting, .append () (turnStart 0), .drive, .driveUnit, .driveUnit, .published,
    .snapshot ()]

theorem drivenOnce_refolds :
    ∃ r, run step (Registry.start fun _ => []) drivenOnce = some r ∧ r.CellRefolds 0 () := by
  have hempty : ∀ id, Numbered ((fun _ : Unit => ([] : List SessionEvent)) id) :=
    fun _ i hi => absurd hi (Nat.not_lt_zero i)
  have hrefold := fun r (hrun : run step (Registry.start fun _ => []) drivenOnce = some r)
      (horderly) => (cells_refold hempty hrun horderly : r.CellRefolds 0 () ∧ _)
  refine ⟨_, rfl, (hrefold _ rfl (fun pre act before hpre hbefore => ?_)).1⟩
  obtain ⟨i, rfl, hact⟩ := exists_of_snoc_prefix hpre
  match i, hact with
  | 0, hact | 1, hact | 2, hact | 5, hact =>
    cases hact
    trivial
  | 3, hact =>
    cases hact
    cases hbefore
    intro publication _ cursor _ registration hnext
    cases cursor with
    | zero =>
      cases hnext
      exact fun cell _ => rfl
    | succ cursor => cases hnext
  | 4, hact =>
    cases hact
    cases hbefore
    rintro publication ⟨⟩ cursor ⟨_, _, _, hphase⟩ registration hnext
    cases hphase
    cases hnext
  | 6, hact =>
    cases hact
    cases hbefore
    intro _ hawaits
    cases hawaits

/-- An observer before the registry takes a checkpoint of the first event. -/
def earlyCheckpoint : List (Action Nat Nat Unit) :=
  [.register counting, .append () (turnStart 0), .checkpoint (), .drive, .driveUnit]

/-- The view of the first unit throws on the first event. -/
def throwingView : List (Action Nat Nat Unit) :=
  [.register throwing, .register counting, .subscribe, .checkpoint (),
    .append () (turnStart 0), .drive, .driveUnit, .published,
    .append () (turnStart 1), .drive, .driveUnit, .driveUnit]

/-- An observer before the registry takes a snapshot of the second event. -/
def earlySnapshot : List (Action Nat Nat Unit) :=
  [.register counting, .append () (turnStart 0), .drive, .driveUnit, .driveUnit, .published,
    .append () (turnStart 1)]

/-- The first event is counted twice, then not at all, then left out of a snapshot. -/
theorem counts_differ :
    (∃ r, run step (Registry.start fun _ => []) earlyCheckpoint = some r ∧
      ¬ r.CellRefolds 0 ()) ∧
    (∃ r, run step (Registry.start fun _ => []) throwingView = some r ∧ ¬ r.CellRefolds 1 ()) ∧
    ∃ r, run step (Registry.start fun _ => []) earlySnapshot = some r ∧
      ¬ r.SnapshotRefolds 0 () := by
  refine ⟨⟨_, rfl, fun h => ?_⟩, ⟨_, rfl, fun h => ?_⟩, ⟨_, rfl, fun h => ?_⟩⟩
  · have hfold := (h _ mem_cons_self rfl _ rfl).2.2
    cases hfold
  · have hfold := (h _ (mem_cons_of_mem _ mem_cons_self) rfl _ rfl).2.2
    cases hfold
  · obtain ⟨value, hshown, hvalue⟩ := (h _ rfl).2 _ mem_cons_self rfl
    cases hvalue
    have := mem_singleton.mp hshown
    cases this

end Registry

end Harness.SessionProjections
