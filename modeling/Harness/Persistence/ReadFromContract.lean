-- SUMMARY: When a seeking read of a stored suffix agrees with reading the whole log.
import Harness.Persistence.ReadFrom
import Harness.Persistence.JsonlLines

namespace Harness

open List StoredEvents
open TornLog (scan)

/-! ## Runs of rows -/

/-- The events of the leading rows that parse and carry `next`, `next + 1` and so on. -/
def readableRun (next : Int) : List EventRow → List StoredFields
  | [] => []
  | row :: rows =>
    match rowToEvent row with
    | none => []
    | some event => if row.seq = next then event :: readableRun (next + 1) rows else []

/-- Every row parses, and they carry `next`, `next + 1` and so on. -/
def Consecutive (next : Int) : List EventRow → Prop
  | [] => True
  | row :: rows => row.seq = next ∧ (rowToEvent row).isSome = true ∧ Consecutive (next + 1) rows

variable {base : Int} {rows : List EventRow}

theorem scan_eq_run {preserved scanned : List StoredFields}
    (h : scan (readEventRow base) closesTurn preserved rows = some scanned) :
    scanned = preserved ++ readableRun (base + preserved.length) rows := by
  induction rows generalizing preserved with
  | nil =>
    cases h
    rw [readableRun, append_nil]
  | cons row rows ih =>
    unfold scan readEventRow at h
    unfold readableRun
    have hhole : (if (row :: rows).any closesTurn = true then none else some preserved) = some scanned →
        scanned = preserved ++ [] := by
      intro h
      split_ifs at h
      cases h
      rw [append_nil]
    cases hrow : rowToEvent row with
    | none =>
      rw [hrow] at h
      exact hhole h
    | some event =>
      by_cases hseq : row.seq = base + preserved.length
      · simp only [hrow, if_pos hseq] at h ⊢
        have hnext := ih h
        rw [length_append, length_singleton, Nat.cast_add, Nat.cast_one, ← Int.add_assoc,
          append_assoc] at hnext
        exact hnext
      · simp only [hrow, if_neg hseq] at h ⊢
        exact hhole h

/-- Without a turn ending no hole is refused. -/
theorem scan_of_open (base : Int) (preserved : List StoredFields)
    (h : rows.any closesTurn = false) :
    ∃ scanned, scan (readEventRow base) closesTurn preserved rows = some scanned := by
  induction rows generalizing preserved with
  | nil => exact ⟨preserved, rfl⟩
  | cons row rows ih =>
    cases hstep : readEventRow base preserved row with
    | none => exact ⟨preserved, TornLog.scan_of_hole hstep h⟩
    | some next =>
      rw [any_cons, Bool.or_eq_false_iff] at h
      obtain ⟨scanned, hscan⟩ := ih next h.2
      exact ⟨scanned, by simp only [scan, hstep, hscan]⟩

theorem reads_of_consecutive {preserved : List StoredFields}
    (h : Consecutive (base + preserved.length) rows) :
    TornLog.Reads (readEventRow base) preserved rows
      (preserved ++ readableRun (base + preserved.length) rows) := by
  induction rows generalizing preserved with
  | nil =>
    rw [readableRun, append_nil]
    exact .nil preserved
  | cons row rows ih =>
    obtain ⟨hseq, hsome, hrest⟩ := h
    obtain ⟨event, hrow⟩ := Option.isSome_iff_exists.mp hsome
    have hlater : Consecutive (base + (preserved ++ [event]).length) rows := by
      rwa [length_append, length_singleton, Nat.cast_add, Nat.cast_one, ← Int.add_assoc]
    have hnext := ih hlater
    rw [length_append, length_singleton, Nat.cast_add, Nat.cast_one, ← Int.add_assoc,
      append_assoc] at hnext
    have hstep : readEventRow base preserved row = some (preserved ++ [event]) := by
      simp only [readEventRow, hrow, if_pos hseq]
    refine .cons hstep ?_
    simpa only [readableRun, hrow, if_pos hseq, singleton_append] using hnext

variable {next : Int}

theorem run_length (h : Consecutive next rows) : (readableRun next rows).length = rows.length := by
  induction rows generalizing next with
  | nil => rfl
  | cons row rows ih =>
    obtain ⟨hseq, hsome, hrest⟩ := h
    obtain ⟨event, hrow⟩ := Option.isSome_iff_exists.mp hsome
    simp only [readableRun, hrow, if_pos hseq, length_cons, ih hrest]

theorem consecutive_bounds (h : Consecutive next rows)
    {row : EventRow} (hrow : row ∈ rows) : row.seq < next + rows.length := by
  induction rows generalizing next with
  | nil => cases hrow
  | cons first rows ih =>
    obtain ⟨hseq, -, hrest⟩ := h
    rw [length_cons]
    rcases mem_cons.mp hrow with rfl | hrow
    · omega
    · have hlater := ih hrest hrow
      omega

/-- A run longer than `n` goes through `n` rows and the row after them. -/
theorem run_split {n : Nat} (h : n < (readableRun next rows).length) :
    ∃ below row above, rows = below ++ row :: above ∧ Consecutive next below ∧ below.length = n ∧
      row.seq = next + n := by
  induction rows generalizing next n with
  | nil => cases h
  | cons row rows ih =>
    unfold readableRun at h
    split at h
    · cases h
    rename_i event hrow
    split_ifs at h with hseq
    · cases n with
      | zero => exact ⟨[], row, rows, rfl, trivial, rfl, by simpa using hseq⟩
      | succ n =>
        obtain ⟨below, row', above, rfl, hbelow, hlength, hseq'⟩ := ih (Nat.lt_of_succ_lt_succ h)
        refine ⟨row :: below, row', above, rfl, ⟨hseq, by rw [hrow]; rfl, hbelow⟩, ?_, ?_⟩
        · rw [length_cons, hlength]
        rw [hseq']
        push_cast
        omega
    · cases h

/-- Rows that were read carry seqs below the length they leave. -/
theorem reads_bounds {preserved scanned : List StoredFields}
    (h : TornLog.Reads (readEventRow 0) preserved rows scanned) :
    preserved.length ≤ scanned.length ∧ ∀ row ∈ rows, row.seq < scanned.length := by
  induction h with
  | nil s => exact ⟨Nat.le_refl _, by simp⟩
  | @cons s s' s'' row rows hstep _ ih =>
    obtain ⟨hle, hrest⟩ := ih
    unfold readEventRow at hstep
    split at hstep
    · cases hstep
    rename_i event hrow
    split_ifs at hstep with hseq
    cases hstep
    rw [length_append, length_singleton] at hle
    refine ⟨by omega, fun row' hrow' => ?_⟩
    rcases mem_cons.mp hrow' with rfl | hrow'
    · omega
    · exact hrest row' hrow'

/-! ## Rows in order -/

def rowsBelow (rows : List EventRow) (fromSeq : Nat) : List EventRow :=
  rows.filter fun row => row.seq < (fromSeq : Int)

def rowsFrom (rows : List EventRow) (fromSeq : Nat) : List EventRow :=
  rows.filter fun row => (fromSeq : Int) ≤ row.seq

theorem rows_split (h : rows.Pairwise fun row row' => row.seq < row'.seq)
    (fromSeq : Nat) : rowsBelow rows fromSeq ++ rowsFrom rows fromSeq = rows := by
  unfold rowsBelow rowsFrom
  induction rows with
  | nil => rfl
  | cons row rows ih =>
    obtain ⟨hfirst, hrest⟩ := pairwise_cons.mp h
    by_cases hlt : row.seq < (fromSeq : Int)
    · rw [filter_cons_of_pos (by simpa using hlt), filter_cons_of_neg (by simpa using hlt),
        cons_append, ih hrest]
    have hnone : (rows.filter fun row => decide (row.seq < (fromSeq : Int))) = [] := by
      rw [filter_eq_nil_iff]
      intro row' hrow'
      have hlater := hfirst row' hrow'
      simp only [decide_eq_true_eq, not_lt]
      omega
    have hall : (rows.filter fun row => decide ((fromSeq : Int) ≤ row.seq)) = rows := by
      have heq := ih hrest
      rwa [hnone, nil_append] at heq
    rw [filter_cons_of_neg (by simpa using hlt), filter_cons_of_pos (by simpa using hlt),
      hnone, hall, nil_append]

/-- The rows below `fromSeq` are `fromSeq` rows that parse, with the seqs from 0 on. -/
def NoHoleBelow (rows : List EventRow) (fromSeq : Nat) : Prop :=
  (rowsBelow rows fromSeq).length = fromSeq ∧ Consecutive 0 (rowsBelow rows fromSeq)

/-- No row that parses carries `fromSeq`. -/
def NoEventAt (rows : List EventRow) (fromSeq : Nat) : Prop :=
  ∀ row ∈ rows, row.seq = fromSeq → rowToEvent row = none

/-- The run of rows that starts at `fromSeq` has an event that is read with the whole log. -/
def LegacyRun (rows : List EventRow) (fromSeq : Nat) : Prop :=
  ∃ event ∈ readableRun fromSeq (rowsFrom rows fromSeq), needsLegacyPrefix event = true

variable {fromSeq : Nat}

/-- A log that preserves more than `fromSeq` events has no hole below. -/
theorem noHoleBelow_of_long (h : rows.Pairwise fun row row' => row.seq < row'.seq)
    (hlong : fromSeq < (readableRun 0 rows).length) : NoHoleBelow rows fromSeq := by
  obtain ⟨below, row, above, rfl, hbelow, hlength, hseq⟩ := run_split hlong
  rw [Int.zero_add] at hseq
  obtain ⟨-, habove, -⟩ := pairwise_append.mp h
  obtain ⟨hfirst, -⟩ := pairwise_cons.mp habove
  have hrows : rowsBelow (below ++ row :: above) fromSeq = below := by
    unfold rowsBelow
    rw [filter_append, filter_eq_self.mpr, filter_eq_nil_iff.mpr, append_nil]
    · intro row' hrow'
      simp only [decide_eq_true_eq, not_lt]
      rcases mem_cons.mp hrow' with rfl | hrow'
      · omega
      · have hlater := hfirst row' hrow'
        omega
    · intro row' hrow'
      have hbound := consecutive_bounds hbelow hrow'
      simp only [decide_eq_true_eq]
      omega
  unfold NoHoleBelow
  rw [hrows]
  exact ⟨hlength, hbelow⟩

theorem run_nil_iff (h : rows.Pairwise fun row row' => row.seq < row'.seq)
    (fromSeq : Nat) : readableRun fromSeq (rowsFrom rows fromSeq) = [] ↔ NoEventAt rows fromSeq := by
  have hsorted : (rowsFrom rows fromSeq).Pairwise fun row row' => row.seq < row'.seq := h.filter _
  have hmem : ∀ row, row ∈ rowsFrom rows fromSeq ↔ row ∈ rows ∧ (fromSeq : Int) ≤ row.seq := by
    intro row
    simp [rowsFrom]
  constructor
  · intro hnil row hrow hseq
    have hin := (hmem row).mpr ⟨hrow, hseq.ge⟩
    cases hfrom : rowsFrom rows fromSeq with
    | nil =>
      rw [hfrom] at hin
      cases hin
    | cons first rest =>
      rw [hfrom] at hin hsorted hnil
      -- the rows are in order, so the row that carries `fromSeq` is the first of them
      have hhead : row = first := by
        rcases mem_cons.mp hin with rfl | hlater
        · rfl
        have hlt := (pairwise_cons.mp hsorted).1 row hlater
        have hge := ((hmem first).mp (hfrom ▸ mem_cons_self)).2
        omega
      subst hhead
      unfold readableRun at hnil
      cases hevent : rowToEvent row with
      | none => rfl
      | some event =>
        rw [hevent] at hnil
        simp only [if_pos hseq] at hnil
        cases hnil
  · intro hnone
    cases hfrom : rowsFrom rows fromSeq with
    | nil => rfl
    | cons first rest =>
      have hin := (hmem first).mp (hfrom ▸ mem_cons_self)
      unfold readableRun
      cases hevent : rowToEvent first with
      | none => rfl
      | some event =>
        have hne : first.seq ≠ fromSeq := fun heq => by
          rw [hnone first hin.1 heq] at hevent
          cases hevent
        dsimp only
        rw [if_neg hne]

/-! ## Migration of a suffix -/

theorem message_local {event : StoredFields} (id : JsString) (messageIds messageIds' : MessageIds)
    (h : hasType event "tool/result" = false ∨ needsLegacyPrefix event = false) :
    migrateLegacyMessageEvent event id messageIds = migrateLegacyMessageEvent event id messageIds' := by
  unfold migrateLegacyMessageEvent
  split
  · rfl
  next data hdata =>
  split_ifs with huser hlegacy hassistant htool
  · rfl
  · rfl
  · rfl
  · split
    · next callId content isError hmessage hcallId _ _ =>
      rcases h with hnot | hlocal
      · rw [hnot] at htool
        cases htool
      unfold needsLegacyPrefix at hlocal
      have hown : Json.hasOwn data "callId" = true := by
        unfold Json.hasOwn
        rw [hcallId]
        rfl
      simp only [hdata, if_neg huser, if_neg hassistant, if_pos htool, hmessage, hown, Bool.not_false,
        Bool.and_true, Bool.or_true] at hlocal
      exact absurd hlocal (by simp)
    · rfl
  · rfl

/-- An event that needs nothing before it is upgraded without the identities. -/
theorem migrateEvent_local {event : StoredFields} (h : needsLegacyPrefix event = false) (id : JsString)
    (messageIds messageIds' : MessageIds) :
    migrateEvent id messageIds event = migrateEvent id messageIds' event := by
  have hsteering : hasType event "steering/message" = false := by
    unfold needsLegacyPrefix at h
    exact (Bool.or_eq_false_iff.mp h).1
  by_cases htool : hasType event "tool/result" = true
  · have hother : ∀ type' : JsString, "tool/result" ≠ type' → hasType event type' = false :=
      fun type' hne => hasType_other htool hne
    rw [migrateEvent_eq (turnStart_other (hother _ (by decide)) id) (turnEnd_other (hother _ (by decide)) id)
      (steering_other hsteering id) messageIds, migrateEvent_eq (turnStart_other (hother _ (by decide)) id)
      (turnEnd_other (hother _ (by decide)) id) (steering_other hsteering id) messageIds',
      message_local id messageIds messageIds' (.inr h)]
  rw [Bool.not_eq_true] at htool
  unfold migrateEvent
  cases hstart : migrateLegacyTurnStartEvent event id with
  | error e => rfl
  | ok started =>
    have hstarted : ∀ type, hasType started type = hasType event type := by
      by_cases htype : hasType event "turn/start" = true
      · exact hasType_of_step (turnStart_step hstart htype).2
      rw [turnStart_other (by simpa using htype)] at hstart
      cases hstart
      exact fun _ => rfl
    simp only [bind, Except.bind]
    cases hend : migrateLegacyTurnEndEvent started id with
    | error e => rfl
    | ok ended =>
      have hended : ∀ type, hasType ended type = hasType started type := by
        by_cases htype : hasType started "turn/end" = true
        · exact hasType_of_step (turnEnd_step hend htype).2
        rw [turnEnd_other (by simpa using htype)] at hend
        cases hend
        exact fun _ => rfl
      have hsame := fun type => (hended type).trans (hstarted type)
      dsimp only
      rw [steering_other ((hsame _).trans hsteering)]
      dsimp only
      rw [message_local id messageIds messageIds' (.inl ((hsame _).trans htool))]

variable {id : JsString}

theorem Migrated.forget {messageIds : MessageIds} {events outs : List StoredFields}
    (h : Migrated id messageIds events outs)
    (hlocal : ∀ event ∈ events, needsLegacyPrefix event = false) (messageIds' : MessageIds) :
    Migrated id messageIds' events outs := by
  induction h generalizing messageIds' with
  | nil => exact .nil _
  | cons hmigrated hcheck _ ih =>
    rw [forall_mem_cons] at hlocal
    refine .cons ?_ hcheck (ih hlocal.2 _)
    rw [migrateEvent_local hlocal.1 id messageIds', hmigrated]

theorem Migrated.split {messageIds : MessageIds} {events more outs : List StoredFields}
    (h : Migrated id messageIds (events ++ more) outs) :
    ∃ messageIds', Migrated id messageIds' more (outs.drop events.length) := by
  induction events generalizing messageIds outs with
  | nil => exact ⟨messageIds, h⟩
  | cons event events ih =>
    cases h with
    | cons _ _ hrest => exact ih hrest

/-! ## Seqs of a run -/

/-- The events carry `next`, `next + 1` and so on. -/
def Sequenced (next : Int) : List StoredFields → Prop
  | [] => True
  | event :: rest => Json.get? "seq" event = some (.ofInt next) ∧ Sequenced (next + 1) rest

theorem sequenced_run (next : Int) (rows : List EventRow) : Sequenced next (readableRun next rows) := by
  induction rows generalizing next with
  | nil => trivial
  | cons row rows ih =>
    unfold readableRun
    cases hrow : rowToEvent row with
    | none => trivial
    | some event =>
      dsimp only
      split_ifs with hseq
      · obtain ⟨⟨-, hmem⟩, hnodup⟩ := rowToEvent_fields hrow
        exact ⟨hseq ▸ Json.get?_of_mem hnodup hmem, ih (next + 1)⟩
      · trivial

theorem Sequenced.samePlace {events outs : List StoredFields}
    (h : List.Forall₂ SamePlace events outs) (hseqs : Sequenced next events) : Sequenced next outs := by
  induction h generalizing next with
  | nil => trivial
  | cons hplace _ ih =>
    exact ⟨(hplace "seq" (by decide) (by decide)).trans hseqs.1, ih hseqs.2⟩

variable {events : List StoredFields}

/-- Over consecutive seqs the filter is the slice. -/
theorem Sequenced.filter {next : Nat} (h : Sequenced next events)
    (fromSeq : Nat) : events.filter (seqFrom fromSeq) = events.drop (fromSeq - next) := by
  induction events generalizing next with
  | nil => simp
  | cons event rest ih =>
    obtain ⟨hseq, hrest⟩ := h
    have hlater : Sequenced ((next + 1 : Nat) : Int) rest := by rwa [Nat.cast_add, Nat.cast_one]
    have hnext := ih hlater
    have hevent : seqFrom fromSeq event = decide (fromSeq ≤ next) := by
      unfold seqFrom
      rw [hseq]
      simp [Json.ofInt]
    by_cases hle : fromSeq ≤ next
    · rw [filter_cons_of_pos (by simpa [hevent] using hle), hnext, Nat.sub_eq_zero_of_le hle,
        Nat.sub_eq_zero_of_le (Nat.le_succ_of_le hle)]
      rfl
    · have hdrop : fromSeq - next = (fromSeq - (next + 1)) + 1 := by omega
      rw [filter_cons_of_neg (by simpa [hevent] using hle), hnext, hdrop]
      rfl

/-! ## Both reads -/

theorem scanRows_ok_iff {preserved : List StoredFields} :
    (∃ scanned, scanRows rows base = .ok scanned ∧ scanned.preserved = preserved) ↔
      scan (readEventRow base) closesTurn [] rows = some preserved := by
  rw [← scanRows_eq_scan]
  cases scanRows rows base with
  | error e => exact ⟨fun ⟨_, h, _⟩ => (by cases h), fun h => (by cases h)⟩
  | ok scanned =>
    refine ⟨fun ⟨_, h, hpreserved⟩ => ?_, fun h => ⟨scanned, rfl, ?_⟩⟩
    · cases h
      exact congrArg some hpreserved
    · exact Option.some.inj h

variable {header : SessionHeader}

theorem assertEventsSupported_iff :
    assertEventsSupported header events = .ok () ↔ ∀ event ∈ events, isSupportedType event = true := by
  unfold assertEventsSupported
  split
  · next event hfound =>
    refine ⟨fun h => (by cases h), fun h => ?_⟩
    have hnot := find?_some hfound
    rw [h event (mem_of_find?_eq_some hfound)] at hnot
    cases hnot
  · next hnone =>
    rw [find?_eq_none] at hnone
    exact ⟨fun _ event hevent => by simpa using hnone event hevent, fun _ => rfl⟩

structure WholeRead (stored : StoredSession) (id : JsString) (header : SessionHeader)
    (events : List StoredFields) : Prop where
  scanned : scan (readEventRow 0) closesTurn [] stored.rows = some (readableRun 0 stored.rows)
  row : stored.rowToMeta = .ok header
  identity : assertStoredId id header = .ok ()
  version : assertVersion header = .ok ()
  snapshot : snapshotStoredEvents (readableRun 0 stored.rows) id = .ok events
  supported : assertEventsSupported header events = .ok ()

variable {stored : StoredSession}

theorem readStoredPrefix_ok (h : readStoredPrefix (some stored) id = .ok (header, events)) :
    WholeRead stored id header events := by
  unfold readStoredPrefix StoredSession.loadStored at h
  dsimp only at h
  cases hscan : scanRows stored.rows 0 with
  | error e =>
    rw [hscan] at h
    cases h
  | ok scanned =>
    have hscanned := scanRows_ok_iff.mp ⟨scanned, hscan, rfl⟩
    have hrun := scan_eq_run hscanned
    rw [nil_append, length_nil, Nat.cast_zero, Int.add_zero] at hrun
    simp only [hscan, bind, Except.bind] at h
    cases hrow : stored.rowToMeta with
    | error e =>
      rw [hrow] at h
      cases h
    | ok header' =>
      simp only [hrow, pure, Except.pure] at h
      split at h
      · cases h
      rename_i _ hid
      split at h
      · cases h
      rename_i _ hversion
      cases hsnapshot : snapshotStoredEvents scanned.preserved id with
      | error e =>
        rw [hsnapshot] at h
        cases h
      | ok events' =>
        simp only [hsnapshot] at h
        split at h
        · cases h
        rename_i _ hsupported
        cases h
        rw [hrun] at hscanned hsnapshot
        exact ⟨hscanned, hrow, hid, hversion, hsnapshot, hsupported⟩

theorem readFromCore_seek
    {events suffix : List StoredFields} (h : WholeRead stored id header events)
    (hsuffix : scan (readEventRow fromSeq) closesTurn [] (rowsFrom stored.rows fromSeq) =
      some suffix) :
    readFromCore true (some stored) id fromSeq =
      if suffix.any needsLegacyPrefix then
        (readStoredPrefix (some stored) id).map fun (header, events) =>
          (header, events.filter (seqFrom fromSeq))
      else do
        let events ← snapshotStoredEvents suffix id
        assertEventsSupported header events
        return (header, events) := by
  obtain ⟨scanned, hscan, rfl⟩ := scanRows_ok_iff.mpr hsuffix
  unfold rowsFrom at hscan
  unfold readFromCore StoredSession.loadStoredFrom
  simp only [if_true, h.row, hscan, bind, Except.bind, pure, Except.pure, h.identity, h.version]
  split_ifs
  · cases readStoredPrefix (some stored) id <;> rfl
  · rfl

/-- With no hole below, the suffix scans to what the whole scan preserves after `fromSeq`. -/
theorem scan_suffix (hhole : NoHoleBelow stored.rows fromSeq)
    (hscan : scan (readEventRow 0) closesTurn [] stored.rows = some (readableRun 0 stored.rows)) :
    ∃ below suffix, below.length = fromSeq ∧ readableRun 0 stored.rows = below ++ suffix ∧
      scan (readEventRow fromSeq) closesTurn [] (rowsFrom stored.rows fromSeq) =
        some suffix := by
  obtain ⟨hlength, hbelow⟩ := hhole
  have hstart : Consecutive (0 + ((([] : List StoredFields).length : Nat) : Int))
      (rowsBelow stored.rows fromSeq) := by simpa using hbelow
  have hreads := reads_of_consecutive hstart
  have hcount := run_length hbelow
  simp only [length_nil, Nat.cast_zero, Int.add_zero, nil_append] at hreads
  rw [← rows_split stored.ascending fromSeq, TornLog.scan_append_of_reads hreads,
    rows_split stored.ascending fromSeq] at hscan
  generalize hevents : readableRun 0 (rowsBelow stored.rows fromSeq) = below at hscan hcount
  have hsame : List.Forall₂ Eq (rowsFrom stored.rows fromSeq) (rowsFrom stored.rows fromSeq) :=
    forall₂_eq_eq_eq ▸ rfl
  have hrel : Option.Rel (fun whole suffix => whole = below ++ suffix)
      (scan (readEventRow 0) closesTurn below (rowsFrom stored.rows fromSeq))
      (scan (readEventRow fromSeq) closesTurn [] (rowsFrom stored.rows fromSeq)) := by
    refine TornLog.scan_simulates ?_ ?_ ?_ hsame
    · rintro row _ rfl
      rfl
    · -- both take the same step on every row of the suffix
      rintro _ suffix row _ rfl rfl
      unfold readEventRow
      cases rowToEvent row with
      | none => exact .none
      | some event =>
        have hseq : (row.seq = 0 + ((below ++ suffix).length : Int)) ↔
            row.seq = fromSeq + (suffix.length : Int) := by
          rw [length_append]
          omega
        dsimp only
        by_cases hnext : row.seq = fromSeq + (suffix.length : Int)
        · rw [if_pos hnext, if_pos (hseq.mpr hnext)]
          exact .some (append_assoc ..)
        · rw [if_neg hnext, if_neg (hseq.not.mpr hnext)]
          exact .none
    · exact (append_nil below).symm
  rw [hscan] at hrel
  cases hsuffix : scan (readEventRow fromSeq) closesTurn [] (rowsFrom stored.rows fromSeq) with
  | none =>
    rw [hsuffix] at hrel
    cases hrel
  | some suffix =>
    rw [hsuffix] at hrel
    cases hrel with
    | some heq => exact ⟨below, suffix, by rw [hcount, hlength], heq, rfl⟩

/-- With a hole below, nothing is preserved from `fromSeq` on, and no turn ending is there. -/
theorem scan_past_hole (hhole : ¬ NoHoleBelow stored.rows fromSeq)
    (hscan : scan (readEventRow 0) closesTurn [] stored.rows = some (readableRun 0 stored.rows)) :
    (readableRun 0 stored.rows).length ≤ fromSeq ∧
      scan (readEventRow fromSeq) closesTurn [] (rowsFrom stored.rows fromSeq) =
        some (readableRun fromSeq (rowsFrom stored.rows fromSeq)) := by
  have hshort : (readableRun 0 stored.rows).length ≤ fromSeq :=
    Nat.le_of_not_lt fun hlong => hhole (noHoleBelow_of_long stored.ascending hlong)
  refine ⟨hshort, ?_⟩
  obtain ⟨front, torn, hrows, hreads, htorn⟩ := TornLog.reads_of_scan hscan
  have hopen : (rowsFrom stored.rows fromSeq).any closesTurn = false := by
    rw [any_eq_false]
    intro row hrow
    obtain ⟨hmem, hge⟩ := mem_filter.mp hrow
    rw [decide_eq_true_eq] at hge
    rw [hrows] at hmem
    rcases mem_append.mp hmem with hfront | hback
    · have hbound := (reads_bounds hreads).2 row hfront
      omega
    cases htail : torn with
    | nil =>
      rw [htail] at hback
      cases hback
    | cons first rest =>
      have hnone := (htorn first rest htail).2
      rw [any_eq_false] at hnone
      exact hnone row hback
  obtain ⟨suffix, hsuffix⟩ := scan_of_open fromSeq [] hopen
  have hrun := scan_eq_run hsuffix
  rw [nil_append, length_nil, Nat.cast_zero, Int.add_zero] at hrun
  rw [hsuffix, hrun]

/-- Where a whole read accepts a stored log, a read that seeks returns the same events
exactly when no hole lies below `fromSeq`, or no event is at `fromSeq`, or the events from
there on send it back to the whole log. -/
theorem readFrom_agrees_iff {stored : StoredSession} {id : JsString} {fromSeq : Nat}
    {result : SessionHeader × List StoredFields}
    (hwhole : readFromCore false (some stored) id fromSeq = .ok result) :
    readFromCore true (some stored) id fromSeq = .ok result ↔
      NoHoleBelow stored.rows fromSeq ∨ NoEventAt stored.rows fromSeq ∨
        LegacyRun stored.rows fromSeq := by
  cases hstored : readStoredPrefix (some stored) id with
  | error e =>
    unfold readFromCore at hwhole
    simp only [Bool.false_eq_true, if_false, hstored, bind, Except.bind] at hwhole
    cases hwhole
  | ok whole =>
    obtain ⟨header, events⟩ := whole
    unfold readFromCore at hwhole
    simp only [Bool.false_eq_true, if_false, hstored, bind, Except.bind, pure, Except.pure] at hwhole
    cases hwhole
    have hread := readStoredPrefix_ok hstored
    obtain ⟨hsupported, hmigrated⟩ := snapshotStoredEvents_iff.mp hread.snapshot
    have hplaces := hmigrated.samePlace
    have hfilter : events.filter (seqFrom fromSeq) = events.drop fromSeq := by
      have hseqs := Sequenced.samePlace hplaces (sequenced_run 0 stored.rows)
      have hslice : events.filter (seqFrom fromSeq) = events.drop (fromSeq - 0) :=
        Sequenced.filter hseqs fromSeq
      rwa [Nat.sub_zero] at hslice
    by_cases hhole : NoHoleBelow stored.rows fromSeq
    · refine iff_of_true ?_ (.inl hhole)
      obtain ⟨below, suffix, hlength, hrun, hsuffix⟩ := scan_suffix hhole hread.scanned
      rw [readFromCore_seek hread hsuffix]
      split_ifs with hlegacy
      · rw [hstored]
        simp only [Except.map, hfilter]
      -- the suffix is upgraded by itself to what it is upgraded to in the whole log
      rw [hrun] at hsupported hmigrated
      obtain ⟨messageIds, hback⟩ := Migrated.split hmigrated
      have hlocal : ∀ event ∈ suffix, needsLegacyPrefix event = false := by
        simpa using hlegacy
      rw [hlength] at hback
      have hsnapshot : snapshotStoredEvents suffix id = .ok (events.drop fromSeq) :=
        snapshotStoredEvents_iff.mpr ⟨fun event hevent => hsupported event (mem_append_right _ hevent),
          Migrated.forget hback hlocal []⟩
      have hknown : assertEventsSupported header (events.drop fromSeq) = .ok () :=
        assertEventsSupported_iff.mpr fun event hevent =>
          assertEventsSupported_iff.mp hread.supported event (mem_of_mem_drop hevent)
      simp only [hsnapshot, hknown, bind, Except.bind, pure, Except.pure]
    · obtain ⟨hshort, hsuffix⟩ := scan_past_hole hhole hread.scanned
      have hnil : events.drop fromSeq = [] := by
        rw [drop_eq_nil_iff, ← hplaces.length_eq]
        exact hshort
      rw [readFromCore_seek hread hsuffix, hfilter.symm.trans hfilter, hnil]
      have hany : (readableRun fromSeq (rowsFrom stored.rows fromSeq)).any needsLegacyPrefix = true ↔
          LegacyRun stored.rows fromSeq := any_eq_true
      by_cases hlegacy : LegacyRun stored.rows fromSeq
      · refine iff_of_true ?_ (.inr (.inr hlegacy))
        rw [if_pos (hany.mpr hlegacy), hstored]
        simp only [Except.map, hfilter, hnil]
      rw [if_neg (hany.not.mpr hlegacy), ← run_nil_iff stored.ascending]
      cases hrun : readableRun fromSeq (rowsFrom stored.rows fromSeq) with
      | nil => exact iff_of_true rfl (.inr (.inl rfl))
      | cons event rest =>
        refine iff_of_false (fun hok => ?_) (by simp [hhole, hlegacy])
        cases hsnapshot : snapshotStoredEvents (event :: rest) id with
        | error e =>
          rw [hsnapshot] at hok
          cases hok
        | ok outs =>
          have hlength := (snapshotStoredEvents_iff.mp hsnapshot).2.samePlace.length_eq
          simp only [hsnapshot, bind, Except.bind] at hok
          cases hknown : assertEventsSupported header outs with
          | error e =>
            rw [hknown] at hok
            cases hok
          | ok _ =>
            rw [hknown] at hok
            cases hok
            cases hlength

/-- A row that parses, past the hole that the torn row is. -/
def strandedRow : EventRow := { startRow with seq := 2, type := "step/start" }

def strandedSession : StoredSession where
  header := forkHeader
  rows := [startRow, tornRow, strandedRow]
  ascending := by decide

def strandedFields : StoredFields :=
  [("type", .str "step/start"), ("seq", .ofInt 2), ("time", .ofInt 0),
    ("data", .obj [("turn", .ofInt 1)])]

/-- A read that seeks past the hole returns the stranded row, the whole read drops it. -/
theorem readFrom_stranded :
    readFromCore false (some strandedSession) "fork" 2 = .ok (forkHeader, []) ∧
      readFromCore true (some strandedSession) "fork" 2 = .ok (forkHeader, [strandedFields]) :=
  ⟨rfl, rfl⟩

/-- A read from the hole itself agrees: no row that parses carries its seq. -/
theorem readFrom_torn :
    readFromCore true (some strandedSession) "fork" 1 = .ok (forkHeader, []) := by
  refine (readFrom_agrees_iff rfl).mpr (.inr (.inl ?_))
  intro row hrow hseq
  simp only [strandedSession, mem_cons, not_mem_nil, or_false] at hrow
  rcases hrow with rfl | rfl | rfl
  · cases hseq
  · rfl
  · cases hseq

end Harness
