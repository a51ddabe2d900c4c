-- SUMMARY: A cell that keeps the write with the highest stamp and forgets its stamp when it is cleared.
import Mathlib.Data.Finset.Max

/-!
# Cells under stamped writes and clears

A write lands unless the cell holds a stamp at least as high. A clear empties the cell unless it
holds a higher stamp, and leaves nothing behind: a write that comes after a clear with a higher
stamp is not recognised as old.
-/

namespace LatestCell

open List

inductive Update (ν σ : Type*) where
  | write (value : ν) (stamp : σ)
  | clear (stamp : σ)
  | skip
  deriving DecidableEq

variable {ν σ : Type*} [LinearOrder σ]

def step (cell : Option (ν × σ)) : Update ν σ → Option (ν × σ)
  | .write value stamp =>
    match cell with
    | some held => if stamp ≤ held.2 then some held else some (value, stamp)
    | none => some (value, stamp)
  | .clear stamp =>
    match cell with
    | some held => if held.2 > stamp then some held else none
    | none => none
  | .skip => cell

def run (cell : Option (ν × σ)) (updates : List (Update ν σ)) : Option (ν × σ) :=
  updates.foldl step cell

/-- What a cell should hold once the updates have come in: the newest write, unless a clear is
as new. -/
def Settled (updates : List (Update ν σ)) : Option (ν × σ) → Prop
  | some held =>
    .write held.1 held.2 ∈ updates
      ∧ (∀ value stamp, .write value stamp ∈ updates → stamp ≤ held.2)
      ∧ ∀ stamp, .clear stamp ∈ updates → stamp < held.2
  | none => ∀ value stamp, .write value stamp ∈ updates →
      ∃ cleared, .clear cleared ∈ updates ∧ stamp ≤ cleared

/-- Where there are writes at all, one of them is newer than every clear. -/
def Outlived (updates : List (Update ν σ)) : Prop :=
  ∀ cleared, .clear cleared ∈ updates → ∀ value stamp, .write value stamp ∈ updates →
    ∃ value' stamp', .write value' stamp' ∈ updates ∧ cleared < stamp'

/-- Writes with one stamp write one value. -/
def Functional (updates : List (Update ν σ)) : Prop :=
  ∀ value value' stamp, .write value stamp ∈ updates → .write value' stamp ∈ updates →
    value = value'

/-- An update never moves a cell to a lower stamp. -/
theorem step_mono {held held' : ν × σ} {update : Update ν σ}
    (h : step (some held) update = some held') : held.2 ≤ held'.2 := by
  cases update with
  | write value stamp =>
    simp only [step] at h
    split at h
    · rw [Option.some.inj h]
    rename_i hnewer
    rw [← Option.some.inj h]
    exact le_of_lt (lt_of_not_ge hnewer)
  | clear stamp =>
    simp only [step] at h
    split at h
    · rw [Option.some.inj h]
    · cases h
  | skip => rw [Option.some.inj h]

theorem step_write (cell : Option (ν × σ)) (value : ν) (stamp : σ) :
    ∃ held, step cell (.write value stamp) = some held ∧ stamp ≤ held.2 := by
  cases cell with
  | none => exact ⟨_, rfl, le_refl _⟩
  | some held =>
    simp only [step]
    split
    · rename_i hle
      exact ⟨_, rfl, hle⟩
    · exact ⟨_, rfl, le_refl _⟩

variable {updates : List (Update ν σ)}

/-- What a cell holds was written. -/
theorem mem_of_run {held : ν × σ}
    (h : run none updates = some held) : .write held.1 held.2 ∈ updates := by
  induction updates using List.reverseRecOn generalizing held with
  | nil => cases h
  | append_singleton updates update ih =>
    rw [run, foldl_append] at h
    change step (run none updates) update = some held at h
    apply mem_append.mpr
    cases update with
    | write value stamp =>
      cases hcell : run none updates with
      | none =>
        rw [hcell] at h
        obtain rfl := Option.some.inj h
        exact .inr (mem_singleton_self _)
      | some before =>
        rw [hcell] at h
        simp only [step] at h
        split at h
        · rw [Option.some.inj h] at hcell
          exact .inl (ih hcell)
        · obtain rfl := Option.some.inj h
          exact .inr (mem_singleton_self _)
    | clear stamp =>
      cases hcell : run none updates with
      | none =>
        rw [hcell] at h
        cases h
      | some before =>
        rw [hcell] at h
        simp only [step] at h
        split at h
        · rw [Option.some.inj h] at hcell
          exact .inl (ih hcell)
        · cases h
    | skip => exact .inl (ih h)

/-- A write newer than every clear is never lost to an older one. -/
theorem run_ge {value : ν} {stamp : σ} (hwrite : .write value stamp ∈ updates)
    (hnewer : ∀ cleared, .clear cleared ∈ updates → cleared < stamp) (cell : Option (ν × σ)) :
    ∃ held, run cell updates = some held ∧ stamp ≤ held.2 := by
  induction updates using List.reverseRecOn with
  | nil => cases hwrite
  | append_singleton updates update ih =>
    rw [run, foldl_append]
    change ∃ held, step (run cell updates) update = some held ∧ stamp ≤ held.2
    rcases mem_append.mp hwrite with hbefore | hlast
    · obtain ⟨held, hheld, hle⟩ := ih hbefore fun cleared hclear =>
        hnewer cleared (mem_append_left _ hclear)
      rw [hheld]
      cases hstep : step (some held) update with
      | some held' => exact ⟨held', rfl, le_trans hle (step_mono hstep)⟩
      | none =>
        cases update with
        | write value' stamp' =>
          obtain ⟨held', hheld', -⟩ := step_write (some held) value' stamp'
          rw [hheld'] at hstep
          cases hstep
        | clear cleared =>
          have hlt := hnewer cleared (mem_append_right _ (mem_singleton_self _))
          simp only [step, if_pos (lt_of_lt_of_le hlt hle)] at hstep
          cases hstep
        | skip => cases hstep
    · rw [← mem_singleton.mp hlast]
      exact step_write _ _ _

theorem exists_newest {value : ν} {stamp : σ} (hwrite : .write value stamp ∈ updates) :
    ∃ value' stamp', .write value' stamp' ∈ updates
      ∧ ∀ value stamp, .write value stamp ∈ updates → stamp ≤ stamp' := by
  let stampOf : Update ν σ → Option σ
    | .write _ stamp => some stamp
    | _ => none
  have hstamps {value stamp} (h : .write value stamp ∈ updates) :
      stamp ∈ (updates.filterMap stampOf).toFinset :=
    mem_toFinset.mpr (mem_filterMap.mpr ⟨_, h, rfl⟩)
  obtain ⟨newest, hmem, hmax⟩ := Finset.exists_max_image _ id ⟨stamp, hstamps hwrite⟩
  obtain ⟨update, hupdate, hstamp⟩ := mem_filterMap.mp (mem_toFinset.mp hmem)
  cases update with
  | write value' stamp' =>
    obtain rfl := Option.some.inj hstamp
    exact ⟨value', stamp', hupdate, fun _ _ h => hmax _ (hstamps h)⟩
  | clear => cases hstamp
  | skip => cases hstamp

/-- Where a write outlives every clear, the cell settles in whichever order the updates come. -/
theorem run_settled (houtlived : Outlived updates) : Settled updates (run none updates) := by
  have hnewest {value stamp} (hwrite : .write value stamp ∈ updates) :
      ∃ held, run none updates = some held
        ∧ (∀ value stamp, .write value stamp ∈ updates → stamp ≤ held.2)
        ∧ ∀ cleared, .clear cleared ∈ updates → cleared < held.2 := by
    obtain ⟨value', newest, hmem, hmax⟩ := exists_newest hwrite
    have hclears : ∀ cleared, .clear cleared ∈ updates → cleared < newest := by
      intro cleared hclear
      obtain ⟨_, stamp', hmem', hlt⟩ := houtlived cleared hclear _ _ hwrite
      exact lt_of_lt_of_le hlt (hmax _ _ hmem')
    obtain ⟨held, hheld, hle⟩ := run_ge hmem hclears none
    exact ⟨held, hheld, fun _ _ h => le_trans (hmax _ _ h) hle,
      fun _ h => lt_of_lt_of_le (hclears _ h) hle⟩
  cases hcell : run none updates with
  | some held =>
    have hmem := mem_of_run hcell
    obtain ⟨held', hheld', hmax, hclears⟩ := hnewest hmem
    rw [hcell] at hheld'
    obtain rfl := Option.some.inj hheld'
    exact ⟨hmem, hmax, hclears⟩
  | none =>
    intro value stamp hwrite
    obtain ⟨held, hheld, -⟩ := hnewest hwrite
    rw [hcell] at hheld
    cases hheld

/-- Only one content of a cell is settled. -/
theorem Settled.unique (hfunctional : Functional updates)
    {cell cell' : Option (ν × σ)} (h : Settled updates cell) (h' : Settled updates cell') :
    cell = cell' := by
  cases cell with
  | none =>
    cases cell' with
    | none => rfl
    | some held' =>
      obtain ⟨hmem, -, hclears⟩ := h'
      obtain ⟨cleared, hclear, hle⟩ := h _ _ hmem
      exact absurd (hclears cleared hclear) (not_lt_of_ge hle)
  | some held =>
    obtain ⟨hmem, hmax, hclears⟩ := h
    cases cell' with
    | none =>
      obtain ⟨cleared, hclear, hle⟩ := h' _ _ hmem
      exact absurd (hclears cleared hclear) (not_lt_of_ge hle)
    | some held' =>
      obtain ⟨hmem', hmax', -⟩ := h'
      have hstamp : held.2 = held'.2 := le_antisymm (hmax' _ _ hmem) (hmax _ _ hmem')
      rw [← hstamp] at hmem'
      exact congrArg some (Prod.ext (hfunctional _ _ _ hmem hmem') hstamp)

/-- A cell that settles with a write at its end has outlived every clear. -/
theorem outlived_of_settled (h : ∀ value stamp, .write value stamp ∈ updates →
      Settled updates (run none (updates ++ [.write value stamp]))) : Outlived updates := by
  intro cleared hclear value stamp hwrite
  have hsettled := h value stamp hwrite
  rw [run, foldl_append] at hsettled
  obtain ⟨held, hheld, -⟩ := step_write (run none updates) value stamp
  change Settled updates (step (run none updates) (.write value stamp)) at hsettled
  rw [hheld] at hsettled
  obtain ⟨hmem, -, hclears⟩ := hsettled
  exact ⟨held.1, held.2, hmem, hclears cleared hclear⟩

theorem Settled.congr {updates updates' : List (Update ν σ)} (h : ∀ u, u ∈ updates ↔ u ∈ updates')
    {cell : Option (ν × σ)} (hsettled : Settled updates cell) : Settled updates' cell := by
  cases cell with
  | none =>
    intro value stamp hwrite
    obtain ⟨cleared, hclear, hle⟩ := hsettled value stamp ((h _).mpr hwrite)
    exact ⟨cleared, (h _).mp hclear, hle⟩
  | some held =>
    obtain ⟨hmem, hmax, hclears⟩ := hsettled
    exact ⟨(h _).mp hmem, fun value stamp hwrite => hmax value stamp ((h _).mpr hwrite),
      fun cleared hclear => hclears cleared ((h _).mpr hclear)⟩

theorem Outlived.congr {updates updates' : List (Update ν σ)}
    (h : ∀ u, u ∈ updates ↔ u ∈ updates') (houtlived : Outlived updates) : Outlived updates' := by
  intro cleared hclear value stamp hwrite
  obtain ⟨value', stamp', hmem, hlt⟩ := houtlived cleared ((h _).mpr hclear) value stamp
    ((h _).mpr hwrite)
  exact ⟨value', stamp', (h _).mp hmem, hlt⟩

end LatestCell
