-- SUMMARY: The projection values of one client session (`client/runtime`, `sessions/projection-store.ts`), and when the order of deliveries does not matter.
import Harness.Json.Value
import Harness.Lib.LatestCell
import Harness.Lib.OrderedMap

/-!
# Projection values

The store of one session holds a finished value for each key, with the sequence number the value
is consistent with. Frames and baselines reach it on different ways, in any order.
-/

namespace Harness

open List OrderedMap

namespace ClientSessions

open LatestCell

/-- One key's latest finished value, and the seq it is consistent with. -/
structure ProjectionRow (V : Type) where
  value : V
  seq : Int

/-- The projections block of a history tail page. -/
structure ProjectionsBaseline (V : Type) where
  asOfSeq : Int
  values : OrderedMap JsString V
  distinct : (OrderedMap.keys values).Nodup

/-- The rows of a store, by key. -/
abbrev ProjectionValueStore (V : Type) := OrderedMap JsString (ProjectionRow V)

namespace ProjectionValueStore

variable {V : Type}

/-- Apply one finished value: the higher seq wins. -/
def apply (rows : ProjectionValueStore V) (key : JsString) (value : V) (seq : Int) :
    ProjectionValueStore V :=
  match get? rows key with
  | some row => if seq ≤ row.seq then rows else set rows key ⟨value, seq⟩
  | none => set rows key ⟨value, seq⟩

/-- Seed from a baseline: its keys land under the same rule, and a row whose key it omits is
cleared unless it is newer. -/
def seed (rows : ProjectionValueStore V) (baseline : ProjectionsBaseline V) :
    ProjectionValueStore V :=
  let rows := baseline.values.foldl (fun rows e => rows.apply e.1 e.2 baseline.asOfSeq) rows
  rows.filter fun e => e.1 ∈ OrderedMap.keys baseline.values || e.2.seq > baseline.asOfSeq

/-- Drop the rows beyond what the host has made durable. -/
def truncate (rows : ProjectionValueStore V) (lastSeq : Int) : ProjectionValueStore V :=
  rows.filter fun e => e.2.seq ≤ lastSeq

end ProjectionValueStore

/-- What a host sends a store within one generation. -/
inductive ProjectionDelivery (V : Type) where
  | frame (key : JsString) (value : V) (seq : Int)
  | baseline (block : ProjectionsBaseline V)

namespace ProjectionValueStore

variable {V : Type}

def deliver (rows : ProjectionValueStore V) : ProjectionDelivery V → ProjectionValueStore V
  | .frame key value seq => rows.apply key value seq
  | .baseline block => rows.seed block

def deliverAll (rows : ProjectionValueStore V) (deliveries : List (ProjectionDelivery V)) :
    ProjectionValueStore V :=
  deliveries.foldl deliver rows

end ProjectionValueStore

variable {V : Type}

/-! ## One key -/

/-- What a delivery does to the row of a key. -/
def ProjectionDelivery.update (key : JsString) : ProjectionDelivery V → Update V Int
  | .frame key' value seq => if key' = key then .write value seq else .skip
  | .baseline block =>
    match get? block.values key with
    | some value => .write value block.asOfSeq
    | none => .clear block.asOfSeq

def ProjectionValueStore.cell (rows : ProjectionValueStore V) (key : JsString) : Option (V × Int) :=
  (get? rows key).map fun row => (row.value, row.seq)

section
variable {rows : ProjectionValueStore V}

open ProjectionValueStore

theorem nodup_apply (h : (OrderedMap.keys rows).Nodup) (key : JsString) (value : V) (seq : Int) :
    (OrderedMap.keys (rows.apply key value seq)).Nodup := by
  unfold apply
  split
  · split
    · exact h
    · exact nodup_set h _ _
  · exact nodup_set h _ _

theorem cell_apply (rows : ProjectionValueStore V) (key key' : JsString) (value : V) (seq : Int) :
    (rows.apply key value seq).cell key' =
      if key = key' then step (rows.cell key') (.write value seq) else rows.cell key' := by
  unfold apply cell
  split
  · rename_i row hrow
    split
    · rename_i hle
      split
      · rename_i hsame
        rw [← hsame, hrow]
        simp [step, hle]
      · rfl
    · rename_i hgt
      rw [get?_set]
      split
      · rename_i hsame
        rw [if_pos hsame.symm, hsame, hrow]
        simp [step, hgt]
      · rename_i hother
        rw [if_neg fun heq => hother heq.symm]
  · rename_i hrow
    rw [get?_set]
    split
    · rename_i hsame
      rw [if_pos hsame.symm, hsame, hrow]
      rfl
    · rename_i hother
      rw [if_neg fun heq => hother heq.symm]

theorem nodup_foldl_apply (values : OrderedMap JsString V) (seq : Int)
    (h : (OrderedMap.keys rows).Nodup) :
    (OrderedMap.keys (values.foldl (fun rows e => apply rows e.1 e.2 seq) rows)).Nodup := by
  induction values generalizing rows with
  | nil => exact h
  | cons e values ih => exact ih (nodup_apply h e.1 e.2 seq)

theorem cell_foldl_apply {values : OrderedMap JsString V} (hdistinct : (OrderedMap.keys values).Nodup)
    (seq : Int) (rows : ProjectionValueStore V) (key : JsString) :
    cell (values.foldl (fun rows e => apply rows e.1 e.2 seq) rows) key =
      match get? values key with
      | some value => step (rows.cell key) (.write value seq)
      | none => rows.cell key := by
  induction values generalizing rows with
  | nil => rfl
  | cons e values ih =>
    obtain ⟨hfresh, hrest⟩ := nodup_cons.mp hdistinct
    rw [foldl_cons, ih hrest, cell_apply, get?_cons]
    by_cases hsame : e.1 = key
    · have hnone : get? values key = none :=
        get?_eq_none_iff.mpr (hsame ▸ hfresh)
      simp only [hnone, hsame, if_true]
    · simp only [hsame, if_false]

theorem nodup_deliver (h : (OrderedMap.keys rows).Nodup) (delivery : ProjectionDelivery V) :
    (OrderedMap.keys (rows.deliver delivery)).Nodup := by
  cases delivery with
  | frame key value seq => exact nodup_apply h key value seq
  | baseline block =>
    apply nodup_filter
    exact nodup_foldl_apply block.values block.asOfSeq h

/-- A delivery does to each row what its update says. -/
theorem cell_deliver (h : (OrderedMap.keys rows).Nodup) (delivery : ProjectionDelivery V)
    (key : JsString) :
    (rows.deliver delivery).cell key = step (rows.cell key) (delivery.update key) := by
  cases delivery with
  | frame key' value seq =>
    rw [deliver, cell_apply, ProjectionDelivery.update]
    split <;> rfl
  | baseline block =>
    have hnodup := nodup_foldl_apply block.values block.asOfSeq h
    have happlied := cell_foldl_apply block.distinct block.asOfSeq rows key
    simp only [deliver, seed, ProjectionDelivery.update]
    generalize block.values.foldl (fun rows e => apply rows e.1 e.2 block.asOfSeq) rows = applied
      at hnodup happlied ⊢
    rw [cell, get?_filter hnodup]
    cases hkey : get? block.values key with
    | some value =>
      have hmem : key ∈ OrderedMap.keys block.values := by
        by_contra hnot
        rw [get?_eq_none_iff.mpr hnot] at hkey
        cases hkey
      rw [hkey] at happlied
      simp only [hmem, decide_true, Bool.true_or]
      cases hrow : get? applied key <;> rw [cell, hrow] at happlied <;> exact happlied
    | none =>
      have hnot := get?_eq_none_iff.mp hkey
      rw [hkey] at happlied
      replace happlied : applied.cell key = rows.cell key := happlied
      rw [← happlied, cell]
      cases get? applied key with
      | none => rfl
      | some row =>
        simp only [hnot, decide_false, Bool.false_or, Option.map_some, step]
        rw [Option.filter_some]
        split
        · rename_i hnewer
          rw [if_pos (of_decide_eq_true hnewer)]
          rfl
        · rename_i holder
          rw [if_neg fun hnewer => holder (decide_eq_true hnewer)]
          rfl

theorem cell_deliverAll (h : (OrderedMap.keys rows).Nodup)
    (deliveries : List (ProjectionDelivery V)) (key : JsString) :
    (rows.deliverAll deliveries).cell key =
      run (rows.cell key) (deliveries.map (ProjectionDelivery.update key)) := by
  induction deliveries generalizing rows with
  | nil => rfl
  | cons delivery deliveries ih =>
    rw [deliverAll, foldl_cons, map_cons, run, foldl_cons, ← cell_deliver h]
    exact ih (nodup_deliver h delivery)

/-! ## Every order -/

/-- The deliveries agree on what each key held at each seq. -/
def ConsistentDeliveries (set : List (ProjectionDelivery V)) : Prop :=
  ∀ key, Functional (set.map (ProjectionDelivery.update key))

/-- The deliveries of one host run: `history` is what each key held at each seq, nothing while its
capability was absent. -/
def OneRun (history : JsString → Int → Option V) (set : List (ProjectionDelivery V)) : Prop :=
  ∀ delivery ∈ set, match delivery with
    | .frame key value seq => history key seq = some value
    | .baseline block => ∀ key, get? block.values key = history key block.asOfSeq

/-- In whichever order and however often the deliveries of the set come, a store ends with the
same rows, the newest of each key, and moves no key back on the way. -/
def SettlesInAnyOrder (set : List (ProjectionDelivery V)) : Prop :=
  ∀ deliveries : List (ProjectionDelivery V), (∀ d, d ∈ deliveries ↔ d ∈ set) →
    (∀ key, Settled (set.map (ProjectionDelivery.update key))
        ((deliverAll [] deliveries).cell key))
      ∧ (∀ others : List (ProjectionDelivery V), (∀ d, d ∈ others ↔ d ∈ set) → ∀ key,
          (deliverAll [] deliveries).cell key = (deliverAll [] others).cell key)
      ∧ ∀ front delivery back, deliveries = front ++ delivery :: back → ∀ key held held',
          (deliverAll [] front).cell key = some held →
          (deliverAll [] (front ++ [delivery])).cell key = some held' → held.2 ≤ held'.2

theorem OneRun.consistent {history : JsString → Int → Option V}
    {set : List (ProjectionDelivery V)} (h : OneRun history set) : ConsistentDeliveries set := by
  have hwritten {key value seq} (hwrite : .write value seq ∈ set.map (ProjectionDelivery.update key)) :
      history key seq = some value := by
    obtain ⟨delivery, hmem, hupdate⟩ := mem_map.mp hwrite
    have hdelivery := h delivery hmem
    cases delivery with
    | frame key' value' seq' =>
      rw [ProjectionDelivery.update] at hupdate
      split at hupdate
      · rename_i hsame
        cases hupdate
        rwa [← hsame]
      · cases hupdate
    | baseline block =>
      rw [ProjectionDelivery.update] at hupdate
      split at hupdate
      · rename_i hcarried
        cases hupdate
        rw [← hdelivery key, hcarried]
      · cases hupdate
  intro key value value' seq hwrite hwrite'
  exact Option.some.inj ((hwritten hwrite).symm.trans (hwritten hwrite'))

theorem cell_nil (deliveries : List (ProjectionDelivery V)) (key : JsString) :
    (deliverAll [] deliveries).cell key =
      run none (deliveries.map (ProjectionDelivery.update key)) :=
  @cell_deliverAll V [] nodup_nil deliveries key

theorem mem_updates {deliveries set : List (ProjectionDelivery V)}
    (h : ∀ d, d ∈ deliveries ↔ d ∈ set) (key : JsString) (u : Update V Int) :
    u ∈ deliveries.map (ProjectionDelivery.update key) ↔
      u ∈ set.map (ProjectionDelivery.update key) := by
  simp only [mem_map, h]

/-- A key is cleared by the baselines that omit it. -/
theorem clear_mem_updates {set : List (ProjectionDelivery V)} {key : JsString} {cleared : Int} :
    .clear cleared ∈ set.map (ProjectionDelivery.update key) ↔
      ∃ block, .baseline block ∈ set ∧ key ∉ OrderedMap.keys block.values
        ∧ block.asOfSeq = cleared := by
  rw [mem_map]
  constructor
  · rintro ⟨delivery, hmem, hupdate⟩
    cases delivery with
    | frame key' value seq =>
      rw [ProjectionDelivery.update] at hupdate
      split at hupdate <;> cases hupdate
    | baseline block =>
      rw [ProjectionDelivery.update] at hupdate
      split at hupdate
      · cases hupdate
      rename_i hnone
      cases hupdate
      exact ⟨block, hmem, get?_eq_none_iff.mp hnone, rfl⟩
  · rintro ⟨block, hmem, hnot, rfl⟩
    refine ⟨_, hmem, ?_⟩
    rw [ProjectionDelivery.update, get?_eq_none_iff.mpr hnot]

/-- Of every delivery that carries a key which a baseline omits, there is one beyond that
baseline. -/
def OmissionsOutlived (set : List (ProjectionDelivery V)) : Prop :=
  ∀ block, .baseline block ∈ set → ∀ key, key ∉ OrderedMap.keys block.values →
    ∀ value seq, .write value seq ∈ set.map (ProjectionDelivery.update key) →
      ∃ value' seq', .write value' seq' ∈ set.map (ProjectionDelivery.update key)
        ∧ block.asOfSeq < seq'

theorem omissionsOutlived_iff {set : List (ProjectionDelivery V)} :
    OmissionsOutlived set ↔ ∀ key, Outlived (set.map (ProjectionDelivery.update key)) := by
  constructor
  · intro h key cleared hclear value seq hwrite
    obtain ⟨block, hmem, hnot, rfl⟩ := clear_mem_updates.mp hclear
    exact h block hmem key hnot value seq hwrite
  · intro h block hmem key hnot value seq hwrite
    exact h key _ (clear_mem_updates.mpr ⟨block, hmem, hnot, rfl⟩) value seq hwrite

/-- The order of deliveries does not matter exactly where every key that is carried at all and
omitted by a baseline is carried beyond that baseline too. -/
theorem settlesInAnyOrder_iff {set : List (ProjectionDelivery V)}
    (hconsistent : ConsistentDeliveries set) :
    SettlesInAnyOrder set ↔ OmissionsOutlived set := by
  rw [omissionsOutlived_iff]
  constructor
  · intro h key
    apply outlived_of_settled
    intro value seq hwrite
    -- the write comes once more, after everything else
    obtain ⟨delivery, hmem, hupdate⟩ := mem_map.mp hwrite
    have hsame : ∀ d, d ∈ set ++ [delivery] ↔ d ∈ set := by
      intro d
      simp only [mem_append, mem_singleton, or_iff_left_iff_imp]
      rintro rfl
      exact hmem
    have hsettled := (h _ hsame).1 key
    rwa [cell_nil, map_append, map_singleton, hupdate] at hsettled
  · intro h deliveries hsame
    have hsettled {others : List (ProjectionDelivery V)} (hothers : ∀ d, d ∈ others ↔ d ∈ set)
        (key : JsString) :
        Settled (set.map (ProjectionDelivery.update key)) ((deliverAll [] others).cell key) := by
      have hmem := mem_updates hothers key
      rw [cell_nil]
      apply Settled.congr hmem
      exact run_settled ((h key).congr fun u => (hmem u).symm)
    refine ⟨hsettled hsame, fun others hothers key => ?_, ?_⟩
    · exact (hsettled hsame key).unique (hconsistent key) (hsettled hothers key)
    rintro front delivery back - key held held' hheld hheld'
    rw [cell_nil] at hheld
    rw [cell_nil, map_append, map_singleton, run, foldl_append] at hheld'
    change step (run none _) _ = some held' at hheld'
    rw [hheld] at hheld'
    exact step_mono hheld'

/-- A value at 5, and a baseline at 10 in which its key is gone. -/
def goneByTen : List (ProjectionDelivery Nat) :=
  [.frame ⟨[103]⟩ 1 5, .baseline ⟨10, [], nodup_nil⟩]

/-- The value at 5 until 9, nothing from 10 on. -/
def goneByTenHistory (key : JsString) (seq : Int) : Option Nat :=
  if key = ⟨[103]⟩ ∧ seq < 10 then some 1 else none

theorem goneByTen_oneRun : OneRun goneByTenHistory goneByTen := by
  intro delivery hmem
  simp only [goneByTen, mem_cons, not_mem_nil, or_false] at hmem
  rcases hmem with rfl | rfl
  · decide
  · intro key
    simp [goneByTenHistory, get?]

theorem settlesInAnyOrder_iff_goneByTen :
    SettlesInAnyOrder goneByTen ↔ OmissionsOutlived goneByTen :=
  settlesInAnyOrder_iff goneByTen_oneRun.consistent

/-- Delivered after the baseline, the value at 5 is back. -/
theorem goneByTen_unsettled :
    ¬ ∀ (history : JsString → Int → Option Nat) (set : List (ProjectionDelivery Nat)),
      OneRun history set → SettlesInAnyOrder set := by
  intro h
  have hany := h _ _ goneByTen_oneRun goneByTen.reverse fun d => mem_reverse
  have hsettled := hany.1 ⟨[103]⟩
  have hlast : (deliverAll [] goneByTen.reverse).cell ⟨[103]⟩ = some (1, 5) := by decide
  rw [hlast] at hsettled
  exact absurd (hsettled.2.2 10 (by decide)) (by decide)

end

end ClientSessions

end Harness
