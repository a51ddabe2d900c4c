-- SUMMARY: Cold reads of `session-projection/src/index.ts`: the floor of a checkpoint, its view without a log, and the restore that folds a stored tail over it.
import Harness.Projections.Registry

/-!
# Restoring from a checkpoint

A row seeds the fold of its unit where it is usable, and the events behind its watermark
are applied to it. A row is right for a log when it is the fold of a part of it from the
front; a restore from rows that are right is the refold of the whole log.
-/

namespace Harness.SessionProjections

open List

variable {S V : Type}

/-! ## The three reads -/

/-- The row of a unit, where there is one of its version. -/
def usableRow (checkpoint : ProjectionCheckpoint S) (definition : ProjectionDefinition S V) :
    Option (ProjectionCheckpointRow S) :=
  (checkpoint.lookup definition.key).filter fun row => decide (row.ver = definition.stateVersion)

/-- The seq from which the events of one unit are needed. -/
def neededFrom (checkpoint : ProjectionCheckpoint S) (definition : ProjectionDefinition S V) : Nat :=
  match usableRow checkpoint definition with
  | some row => (max (row.seq + 1) 0).toNat
  | none => 0

/-- The seq at which a tail read must start: one below the lowest usable watermark. Nothing
where no unit is registered. -/
def restoreFloor (units : List (ProjectionDefinition S V)) (checkpoint : ProjectionCheckpoint S) :
    Option Nat :=
  ((units.map (neededFrom checkpoint)).min?).map fun floor => floor - 1

/-- The values of the rows that match a registered unit. Nothing where a view or a schema
throws. -/
def viewCheckpoint (units : List (ProjectionDefinition S V)) (checkpoint : ProjectionCheckpoint S) :
    Option (List (String × V)) :=
  (units.filterMap fun definition =>
    (usableRow checkpoint definition).map fun row =>
      (definition.value row.val).map fun value => (definition.key, value)).mapM id

/-- The seq of the last of the events from `baseSeq` on. -/
def endSeq (events : List SessionEvent) (baseSeq : Nat) : Int :=
  match events.getLast? with
  | some event => event.seq
  | none => (baseSeq : Int) - 1

/-- Restore one unit: its value and its row at the end of the events. Nothing where it
throws. -/
def restoreUnit (checkpoint : ProjectionCheckpoint S) (events : List SessionEvent) (baseSeq : Nat)
    (definition : ProjectionDefinition S V) : Option (V × ProjectionCheckpointRow S) :=
  let last := endSeq events baseSeq
  let seed :=
    match (usableRow checkpoint definition).filter
        fun row => decide ((baseSeq : Int) - 1 ≤ row.seq ∧ row.seq ≤ last) with
    | some row => some (row.val, row.seq)
    | none => if 0 < baseSeq then none else some (definition.init, (baseSeq : Int) - 1)
  seed.bind fun (state, from_) =>
    (definition.applyAll state (events.filter fun event => decide (from_ < event.seq))).bind
      fun state =>
        (definition.value state).map fun value =>
          (value, { ver := definition.stateVersion, seq := last, val := state })

/-- Fold every registered unit over a stored log suffix: the snapshot at its end, and the
rows there. -/
def restore (units : List (ProjectionDefinition S V)) (checkpoint : ProjectionCheckpoint S)
    (events : List SessionEvent) (baseSeq : Nat) :
    Option (ProjectionSnapshot V × ProjectionCheckpoint S) :=
  (units.mapM fun definition =>
    (restoreUnit checkpoint events baseSeq definition).map fun restored =>
      (definition.key, restored)).map fun restored =>
    ({ asOfSeq := endSeq events baseSeq
       values := restored.map fun (key, value, _) => (key, value) },
     restored.map fun (key, _, row) => (key, row))

/-! ## Units by version -/

/-- The units a key has had, by version: a unit whose states or fold change gets a version
of its own. -/
structure Catalogue (S V : Type) where
  unit : String → Int → Option (ProjectionDefinition S V)
  key : ∀ {k v d}, unit k v = some d → d.key = k
  stateVersion : ∀ {k v d}, unit k v = some d → d.stateVersion = v

def Catalogue.Holds (catalogue : Catalogue S V) (definition : ProjectionDefinition S V) : Prop :=
  catalogue.unit definition.key definition.stateVersion = some definition

/-- The rows are folds of the log up to their watermarks. -/
def Right (catalogue : Catalogue S V) (log : List SessionEvent)
    (checkpoint : ProjectionCheckpoint S) : Prop :=
  ∀ key row, (key, row) ∈ checkpoint → ∀ definition, catalogue.unit key row.ver = some definition →
    -1 ≤ row.seq ∧ row.seq < log.length ∧
      definition.fold (log.take (row.seq + 1).toNat) = some row.val

/-- A snapshot shows the values of the full refold at the end of the log. -/
structure Refolds (units : List (ProjectionDefinition S V)) (log : List SessionEvent)
    (snapshot : ProjectionSnapshot V) : Prop where
  asOfSeq : snapshot.asOfSeq = (log.length : Int) - 1
  values : snapshot.values.map some = units.map fun definition =>
    ((definition.fold log).bind definition.value).map fun value => (definition.key, value)

/-! ## Rows that are right -/

theorem Right.nil (catalogue : Catalogue S V) (log : List SessionEvent) :
    Right catalogue log [] := by
  intro key row hmem
  cases hmem

variable {catalogue : Catalogue S V} {checkpoint : ProjectionCheckpoint S}

/-- Rows stay right while the log grows. -/
theorem Right.grow {log log' : List SessionEvent} (h : Right catalogue log checkpoint)
    (hgrow : log <+: log') : Right catalogue log' checkpoint := by
  intro key row hmem definition hunit
  obtain ⟨hlow, hhigh, hfold⟩ := h key row hmem definition hunit
  have hlength := hgrow.length_le
  refine ⟨hlow, by omega, ?_⟩
  obtain ⟨rest, rfl⟩ := hgrow
  rw [take_append_of_le_length (by omega)]
  exact hfold

variable {definition : ProjectionDefinition S V} {row : ProjectionCheckpointRow S}

theorem usableRow_some (h : usableRow checkpoint definition = some row) :
    (definition.key, row) ∈ checkpoint ∧ row.ver = definition.stateVersion := by
  obtain ⟨hlookup, hver⟩ := Option.filter_eq_some_iff.mp h
  refine ⟨?_, of_decide_eq_true hver⟩
  rw [lookup_eq_some_iff] at hlookup
  obtain ⟨before, rest, heq, _⟩ := hlookup
  rw [heq]
  simp

variable {log : List SessionEvent}

/-- The usable row of a unit, where the rows are right. -/
theorem Right.usable (h : Right catalogue log checkpoint)
    (hholds : catalogue.Holds definition) (hrow : usableRow checkpoint definition = some row) :
    -1 ≤ row.seq ∧ row.seq < log.length ∧
      definition.fold (log.take (row.seq + 1).toNat) = some row.val := by
  obtain ⟨hmem, hver⟩ := usableRow_some hrow
  exact h definition.key row hmem definition (by rw [hver]; exact hholds)

/-! ## Restoring -/

variable {base : Nat}

theorem filter_behind {events : List SessionEvent} (h : NumberedFrom base events)
    {from_ : Int} (hfrom : (base : Int) - 1 ≤ from_) :
    events.filter (fun event => decide (from_ < event.seq)) =
      events.drop (from_ + 1 - base).toNat := by
  induction events generalizing base with
  | nil => simp
  | cons event events ih =>
    have hseq : event.seq = base := h 0 (by simp)
    have htail : NumberedFrom (base + 1) events := by
      intro i hi
      have := h (i + 1) (by simpa using hi)
      simp only [getElem_cons_succ] at this
      omega
    rcases lt_or_ge from_ (base : Int) with hlt | hge
    · have hkeep : ∀ other ∈ event :: events, decide (from_ < (other.seq : Int)) = true := by
        intro other hmem
        obtain ⟨i, hi, rfl⟩ := getElem_of_mem hmem
        rw [h i hi]
        exact decide_eq_true (by omega)
      have hnone : (from_ + 1 - base).toNat = 0 := by omega
      rw [filter_eq_self.mpr hkeep, hnone, drop_zero]
    · have hdrop : decide (from_ < (event.seq : Int)) = false := decide_eq_false (by omega)
      have hcount : (from_ + 1 - base).toNat = (from_ + 1 - (base + 1 : Nat)).toNat + 1 := by omega
      rw [filter_cons, hdrop, hcount, drop_succ_cons]
      exact ih htail (by omega)

theorem endSeq_drop (h : Numbered log)
    (hbase : base ≤ log.length) : endSeq (log.drop base) base = (log.length : Int) - 1 := by
  rcases Nat.lt_or_ge base log.length with hlt | hge
  · have hne : log.drop base ≠ [] := by simpa using hlt
    have hlast := (NumberedFrom.drop h base).lastSeq hne
    have hsame : endSeq (log.drop base) base = lastSeq (log.drop base) := by
      unfold endSeq lastSeq
      cases hlast? : (log.drop base).getLast? with
      | none => exact absurd (getLast?_eq_none_iff.mp hlast?) hne
      | some event => rfl
    rw [hsame, hlast, length_drop]
    omega
  · have hall : base = log.length := Nat.le_antisymm hbase hge
    subst hall
    simp [endSeq]

theorem restoreUnit_refolds {value : V} (hlog : Numbered log)
    (hright : Right catalogue log checkpoint) (hholds : catalogue.Holds definition)
    (hbase : base ≤ log.length)
    (hrestored : restoreUnit checkpoint (log.drop base) base definition = some (value, row)) :
    (definition.fold log).bind definition.value = some value ∧
      row.ver = definition.stateVersion ∧ row.seq = (log.length : Int) - 1 ∧
      definition.fold log = some row.val := by
  have hfinish : ∀ {state : S} {from_ : Int}, (base : Int) - 1 ≤ from_ → -1 ≤ from_ →
      from_ < log.length →
      definition.fold (log.take (from_ + 1).toNat) = some state →
      definition.applyAll state
        ((log.drop base).filter fun event => decide (from_ < event.seq)) = definition.fold log := by
    intro state from_ hfrom hlow hhigh hfold
    rw [filter_behind (NumberedFrom.drop hlog base) (by omega), drop_drop]
    have hcount : base + (from_ + 1 - ((0 + base : Nat) : Int)).toNat = (from_ + 1).toNat := by omega
    rw [hcount]
    conv => rhs; rw [← take_append_drop (from_ + 1).toNat log]
    rw [ProjectionDefinition.fold_append, hfold]
    rfl
  unfold restoreUnit at hrestored
  simp only [endSeq_drop hlog hbase, Option.bind_eq_some_iff] at hrestored
  obtain ⟨⟨state, from_⟩, hseed, after, happly, hvalue⟩ := hrestored
  have hfold : definition.fold log = some after := by
    rw [← happly]
    split at hseed
    · rename_i row hrow
      cases hseed
      obtain ⟨hrow, hbounds⟩ := Option.filter_eq_some_iff.mp hrow
      obtain ⟨hlow, hhigh, hfold⟩ := hright.usable hholds hrow
      exact (hfinish (of_decide_eq_true hbounds).1 hlow hhigh hfold).symm
    · split at hseed
      · cases hseed
      rename_i hzero
      cases hseed
      have hzero : base = 0 := by omega
      subst hzero
      rw [drop_zero, filter_behind hlog (by simp)]
      rfl
  obtain ⟨value', hvalue', heq⟩ := Option.map_eq_some_iff.mp hvalue
  cases heq
  rw [hfold]
  exact ⟨hvalue', rfl, rfl, rfl⟩

/-- Two units of one key and one version are one unit. -/
theorem Catalogue.Holds.unique {definition definition' : ProjectionDefinition S V} {version : Int}
    (h : catalogue.Holds definition) (hversion : version = definition.stateVersion)
    (h' : catalogue.unit definition.key version = some definition') : definition' = definition := by
  rw [hversion, h] at h'
  exact (Option.some.inj h').symm

/-- A row at the end of the log is right. -/
theorem Right.cons (hholds : catalogue.Holds definition)
    (hver : row.ver = definition.stateVersion) (hseq : row.seq = (log.length : Int) - 1)
    (hfold : definition.fold log = some row.val) (h : Right catalogue log checkpoint) :
    Right catalogue log ((definition.key, row) :: checkpoint) := by
  intro key row' hmem definition' hunit
  rcases mem_cons.mp hmem with heq | hmem
  · cases heq
    have hsame : definition' = definition := hholds.unique hver hunit
    subst hsame
    have hall : (row.seq + 1).toNat = log.length := by omega
    rw [hall, take_length]
    exact ⟨by omega, by omega, hfold⟩
  · exact h key row' hmem definition' hunit

variable {units : List (ProjectionDefinition S V)}

theorem restore_refolds
    {snapshot : ProjectionSnapshot V} {rows : ProjectionCheckpoint S} (hlog : Numbered log)
    (hright : Right catalogue log checkpoint)
    (hholds : ∀ definition ∈ units, catalogue.Holds definition) (hbase : base ≤ log.length)
    (hrestored : restore units checkpoint (log.drop base) base = some (snapshot, rows)) :
    Refolds units log snapshot ∧ Right catalogue log rows := by
  rw [restore, Option.map_eq_some_iff] at hrestored
  obtain ⟨restored, hrestored, heq⟩ := hrestored
  cases heq
  suffices h : ((restored.map fun (key, value, _) => (key, value)).map some =
      units.map fun definition =>
        ((definition.fold log).bind definition.value).map fun value => (definition.key, value)) ∧
      Right catalogue log (restored.map fun (key, _, row) => (key, row)) from
    ⟨⟨endSeq_drop hlog hbase, h.1⟩, h.2⟩
  induction units generalizing restored with
  | nil =>
    cases hrestored
    exact ⟨rfl, .nil catalogue log⟩
  | cons definition units ih =>
    rw [mapM_cons] at hrestored
    simp only [Option.bind_eq_bind, Option.bind_eq_some_iff, Option.map_eq_some_iff,
      Option.pure_def, Option.some.injEq] at hrestored
    obtain ⟨_, ⟨⟨value, row⟩, hunit, rfl⟩, rest, hrest, rfl⟩ := hrestored
    have hholds' := hholds definition mem_cons_self
    obtain ⟨hvalue, hver, hseq, hfold⟩ := restoreUnit_refolds hlog hright hholds' hbase hunit
    obtain ⟨hvalues, hrows⟩ := ih (fun other hmem => hholds other (mem_cons_of_mem _ hmem))
      rest hrest
    constructor
    · simp only [map_cons, hvalues, hvalue, Option.map_some]
    · exact hrows.cons hholds' hver hseq hfold

/-- The tail read from the floor of rows that are right starts within the log. -/
theorem Right.floor_le {floor : Nat}
    (h : Right catalogue log checkpoint) (hholds : ∀ definition ∈ units, catalogue.Holds definition)
    (hfloor : restoreFloor units checkpoint = some floor) : floor ≤ log.length := by
  obtain ⟨lowest, hlowest, rfl⟩ := Option.map_eq_some_iff.mp hfloor
  obtain ⟨definition, hmem, hneeded⟩ := mem_map.mp (min?_mem hlowest)
  have hle : neededFrom checkpoint definition ≤ log.length := by
    unfold neededFrom
    split
    · rename_i row hrow
      obtain ⟨hlow, hhigh, _⟩ := h.usable (hholds definition hmem) hrow
      omega
    · exact Nat.zero_le _
  omega

/-- What the view of rows that are right shows is the value of a unit's fold of a part of the
log, at a watermark of the rows. -/
theorem Right.view {values : List (String × V)} (h : Right catalogue log checkpoint)
    (hholds : ∀ definition ∈ units, catalogue.Holds definition)
    (hview : viewCheckpoint units checkpoint = some values) {key : String} {value : V}
    (hmem : (key, value) ∈ values) :
    ∃ definition ∈ units, ∃ row, definition.key = key ∧
      usableRow checkpoint definition = some row ∧ -1 ≤ row.seq ∧ row.seq < log.length ∧
      (definition.fold (log.take (row.seq + 1).toNat)).bind definition.value = some value := by
  unfold viewCheckpoint at hview
  induction units generalizing values with
  | nil =>
    cases hview
    cases hmem
  | cons definition units ih =>
    have hrest : ∀ {values : List (String × V)}, (key, value) ∈ values →
        (units.filterMap fun definition =>
          (usableRow checkpoint definition).map fun row =>
            (definition.value row.val).map fun value => (definition.key, value)).mapM id =
          some values → _ := fun hmem hvalues =>
      ih (fun other hmem => hholds other (mem_cons_of_mem _ hmem)) hvalues hmem
    cases hrow : usableRow checkpoint definition with
    | none =>
      rw [filterMap_cons, hrow] at hview
      obtain ⟨other, hmem', row, hshown⟩ := hrest hmem hview
      exact ⟨other, mem_cons_of_mem _ hmem', row, hshown⟩
    | some row =>
      simp only [filterMap_cons, hrow, Option.map_some, mapM_cons, id,
        Option.bind_eq_bind, Option.bind_eq_some_iff, Option.map_eq_some_iff, Option.pure_def,
        Option.some.injEq] at hview
      obtain ⟨_, ⟨shown, hvalue, rfl⟩, rest, hviewed, rfl⟩ := hview
      rcases mem_cons.mp hmem with heq | hmem
      · cases heq
        obtain ⟨hlow, hhigh, hfold⟩ := h.usable (hholds definition mem_cons_self) hrow
        refine ⟨definition, mem_cons_self, row, rfl, hrow, hlow, hhigh, ?_⟩
        rw [hfold]
        exact hvalue
      · obtain ⟨other, hmem', row, hshown⟩ := hrest hmem hviewed
        exact ⟨other, mem_cons_of_mem _ hmem', row, hshown⟩

/-! ## Cuts -/

/-- The checkpoint of a log: a row of the whole fold for every unit. -/
def cut (units : List (ProjectionDefinition S V)) (log : List SessionEvent) :
    Option (ProjectionCheckpoint S) :=
  units.mapM fun definition =>
    (definition.fold log).map fun state =>
      (definition.key,
        { ver := definition.stateVersion, seq := (log.length : Int) - 1, val := state })

theorem cut_right {rows : ProjectionCheckpoint S}
    (hholds : ∀ definition ∈ units, catalogue.Holds definition)
    (hcut : cut units log = some rows) : Right catalogue log rows := by
  unfold cut at hcut
  induction units generalizing rows with
  | nil =>
    cases hcut
    exact .nil catalogue log
  | cons definition units ih =>
    rw [mapM_cons] at hcut
    simp only [Option.bind_eq_bind, Option.bind_eq_some_iff, Option.map_eq_some_iff,
      Option.pure_def, Option.some.injEq] at hcut
    obtain ⟨_, ⟨state, hfold, rfl⟩, rest, hrest, rfl⟩ := hcut
    exact (ih (fun other hmem => hholds other (mem_cons_of_mem _ hmem)) hrest).cons
      (hholds definition mem_cons_self) rfl rfl hfold

end Harness.SessionProjections
