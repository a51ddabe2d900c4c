-- SUMMARY: A fixed-rate reminder stays on its anchor's grid, and reports each of its instants at most once.
import Harness.Schedule.Domain
import Mathlib.Data.Int.ModEq

/-!
# Fixed-rate reminders

The instants that a reminder may report are those congruent to its first target. A dispatch
reports the latest one that is due, and moves the target to the first one that is not.
-/

namespace Harness

open List OrderedMap

namespace Schedule

/-! ## One decision -/

/-- The floor of the rounded quotient is the integer quotient. -/
theorem everySteps_eq {elapsed interval : Int} (helapsed : 0 ≤ elapsed)
    (hbound : elapsed ≤ MAX_FOUR_DIGIT_YEAR_MS - MIN_FOUR_DIGIT_YEAR_MS) (hinterval : 0 < interval) :
    everySteps elapsed interval = elapsed / interval := by
  rw [MAX_FOUR_DIGIT_YEAR_MS_eq, MIN_FOUR_DIGIT_YEAR_MS_eq] at hbound
  exact Doubles.floor_round_div helapsed (by omega) hinterval

/-- The instants on the grid of an anchor. -/
def Aligned (anchor interval t : Int) : Prop := t ≡ anchor [ZMOD interval]

/-- The latest instant of the grid that is not after `t`, and the first one after it. -/
theorem grid_neighbours {anchor interval t target : Int} (hinterval : 0 < interval)
    (htarget : Aligned anchor interval target) :
    IsGreatest {x | Aligned anchor interval x ∧ x ≤ t}
        (target + (t - target) / interval * interval)
      ∧ IsLeast {x | Aligned anchor interval x ∧ t < x}
        (target + (t - target) / interval * interval + interval) := by
  have hmod := Int.emod_add_mul_ediv (t - target) interval
  have hnonneg := Int.emod_nonneg (t - target) hinterval.ne'
  have hlt := Int.emod_lt_of_pos (t - target) hinterval
  have hcomm := Int.mul_comm interval ((t - target) / interval)
  have hon (k : Int) : Aligned anchor interval (target + k * interval) := by
    refine Int.ModEq.trans ?_ htarget
    have hzero : k * interval ≡ 0 [ZMOD interval] :=
      Int.modEq_zero_iff_dvd.2 (Dvd.intro_left k rfl)
    exact (hzero.add_left target).trans (by rw [add_zero])
  -- Two instants of the grid that are less than an interval apart are one.
  have hgap {x y : Int} (hx : Aligned anchor interval x) (hy : Aligned anchor interval y)
      (hxy : x < y) : x + interval ≤ y := by
    obtain ⟨k, hk⟩ := (Int.ModEq.trans hx hy.symm).dvd
    have hpos : 0 < k := by
      by_contra hneg
      have hle := Int.mul_le_mul_of_nonneg_left (not_lt.1 hneg) hinterval.le
      omega
    have hle := Int.mul_le_mul_of_nonneg_left (Int.add_one_le_of_lt hpos) hinterval.le
    omega
  have hlatest := hon ((t - target) / interval)
  have hfirst : Aligned anchor interval (target + (t - target) / interval * interval + interval) := by
    have hnext := hon ((t - target) / interval + 1)
    rwa [add_mul, one_mul, ← add_assoc] at hnext
  refine ⟨⟨⟨hlatest, by omega⟩, ?_⟩, ⟨hfirst, by omega⟩, ?_⟩
  · rintro x ⟨hx, hle⟩
    by_contra hgt
    have hfar := hgap hlatest hx (not_le.1 hgt)
    omega
  · rintro x ⟨hx, hgt⟩
    exact hgap hlatest hx (by omega)

theorem isSafeInt_of_range {t : Int} (hmin : MIN_FOUR_DIGIT_YEAR_MS ≤ t)
    (hmax : t ≤ MAX_FOUR_DIGIT_YEAR_MS) : isSafeInt t = true := by
  rw [MIN_FOUR_DIGIT_YEAR_MS_eq] at hmin
  rw [MAX_FOUR_DIGIT_YEAR_MS_eq] at hmax
  rw [isSafeInt, decide_eq_true_iff]
  simp only [maxSafeInteger]
  omega

@[simp] theorem withNext_occurrenceAt (record : EveryScheduleRecord) (occurrenceAt : Instant) :
    (withNext record occurrenceAt).occurrenceAt = occurrenceAt := by
  rw [withNext]
  split <;> rfl

/-- The next target is kept exactly where it is representable. -/
theorem withNext_next (record : EveryScheduleRecord) (occurrenceAt : Instant) :
    (withNext record occurrenceAt).nextScheduledAt.map (·.epoch)
      = if occurrenceAt.epoch + record.interval ≤ MAX_FOUR_DIGIT_YEAR_MS
        then some (occurrenceAt.epoch + record.interval) else none := by
  have hmin := occurrenceAt.min
  have hinterval := record.interval_pos
  rw [withNext]
  by_cases hnext : occurrenceAt.epoch + record.interval ≤ MAX_FOUR_DIGIT_YEAR_MS
  · have hkept : ¬ (isSafeInt (occurrenceAt.epoch + record.interval) = false
        ∨ MAX_FOUR_DIGIT_YEAR_MS < occurrenceAt.epoch + record.interval) := by
      rw [isSafeInt_of_range (by omega) hnext]
      simp [hnext]
    rw [dif_neg hkept, if_pos hnext]
    rfl
  · rw [dif_pos (.inr (not_le.1 hnext)), if_neg hnext]
    rfl

/-- What a decision about a due reminder answers. -/
theorem resolveEveryOccurrence_due {record : EveryScheduleRecord} {acceptedAt anchor : Int}
    (halign : Aligned anchor record.interval record.scheduledAt.epoch)
    (hdue : record.scheduledAt.epoch ≤ acceptedAt) (hmax : acceptedAt ≤ MAX_FOUR_DIGIT_YEAR_MS) :
    ∃ occurrence next, resolveEveryOccurrence record acceptedAt = .ok occurrence
      ∧ IsGreatest {x | Aligned anchor record.interval x ∧ x ≤ acceptedAt}
        occurrence.occurrenceAt.epoch
      ∧ IsLeast {x | Aligned anchor record.interval x ∧ acceptedAt < x} next
      ∧ occurrence.nextScheduledAt.map (·.epoch)
        = if next ≤ MAX_FOUR_DIGIT_YEAR_MS then some next else none := by
  have hscheduled := record.scheduledAt.min
  have hinterval := record.interval_pos
  have hmin := hscheduled.trans hdue
  have hsteps : everySteps (acceptedAt - record.scheduledAt.epoch) record.interval
      = (acceptedAt - record.scheduledAt.epoch) / record.interval :=
    everySteps_eq (by omega) (by omega) hinterval
  obtain ⟨hgreatest, hleast⟩ :=
    @grid_neighbours anchor record.interval acceptedAt _ hinterval halign
  have hle := hgreatest.2 ⟨halign, hdue⟩
  have hbelow := hgreatest.1.2
  rw [resolveEveryOccurrence]
  simp only [hsteps]
  have haccepted : ¬ (isSafeInt acceptedAt = false ∨ acceptedAt < MIN_FOUR_DIGIT_YEAR_MS
      ∨ MAX_FOUR_DIGIT_YEAR_MS < acceptedAt) := by
    rw [isSafeInt_of_range hmin hmax]
    simp [hmin, hmax]
  have hpositive : ¬ (isSafeInt record.interval = false ∨ record.interval ≤ 0) := by
    rw [EveryScheduleRecord.interval, record.safe, ← EveryScheduleRecord.interval]
    simp [hinterval]
  have hinside : ¬ (isSafeInt (record.scheduledAt.epoch
        + (acceptedAt - record.scheduledAt.epoch) / record.interval * record.interval) = false
      ∨ record.scheduledAt.epoch
        + (acceptedAt - record.scheduledAt.epoch) / record.interval * record.interval
        < record.scheduledAt.epoch
      ∨ acceptedAt < record.scheduledAt.epoch
        + (acceptedAt - record.scheduledAt.epoch) / record.interval * record.interval) := by
    rw [isSafeInt_of_range (hscheduled.trans hle) (hbelow.trans hmax), not_or, not_or]
    exact ⟨Bool.noConfusion, not_lt.2 hle, not_lt.2 hbelow⟩
  rw [dif_neg haccepted, if_neg hpositive, if_neg (not_lt.2 hdue), dif_neg hinside]
  refine ⟨_, _, rfl, ?_, hleast, withNext_next _ _⟩
  rw [withNext_occurrenceAt]
  exact hgreatest

/-- A decision before the target is refused. -/
theorem resolveEveryOccurrence_ok {record : EveryScheduleRecord} {acceptedAt : Int}
    {occurrence : EveryOccurrence} (h : resolveEveryOccurrence record acceptedAt = .ok occurrence) :
    record.scheduledAt.epoch ≤ acceptedAt ∧ acceptedAt ≤ MAX_FOUR_DIGIT_YEAR_MS := by
  rw [resolveEveryOccurrence] at h
  simp only at h
  split at h
  case isTrue => cases h
  case isFalse haccepted =>
    split at h
    case isTrue => cases h
    case isFalse =>
      split at h
      case isTrue => cases h
      case isFalse hdue =>
        have hmax : ¬ MAX_FOUR_DIGIT_YEAR_MS < acceptedAt := fun hlt =>
          haccepted (.inr (.inr hlt))
        exact ⟨not_lt.1 hdue, not_lt.1 hmax⟩

/-! ## One reminder -/

/-- The folded state of a session whose one reminder is at `record`, or is retired. -/
def reminderState (id : ScheduleId) (record : Option EveryScheduleRecord) : FoldedSchedules :=
  { active := (record.map fun record => (id, ScheduleRecord.every record)).toList
    seenIds := [id] }

def dispatches (id : ScheduleId) (acceptedAts : List Instant) : List ScheduleChange :=
  acceptedAts.map fun acceptedAt => .dispatch id (some acceptedAt)

/-- The occurrences that the decision at a dispatch's moment reports for its reminder. -/
def reportedAt (folded : FoldedSchedules) (id : ScheduleId) (acceptedAt : Instant) : List Int :=
  match dueDecision folded acceptedAt.epoch with
  | .ok (.every reminders _) =>
    (reminders.filter (·.record.id = id)).map (·.occurrenceAt.epoch)
  | _ => []

/-- The occurrences reported along a log. -/
def reported (folded : FoldedSchedules) : List ScheduleChange → List Int
  | [] => []
  | change :: changes =>
    let now := match change with
      | .dispatch id (some acceptedAt) => reportedAt folded id acceptedAt
      | _ => []
    match folded.applyChange change with
    | .ok folded => now ++ reported folded changes
    | .error _ => now

section
variable {id : ScheduleId} {record : EveryScheduleRecord}

theorem get?_reminderState :
    get? (reminderState id (some record)).active id = some (.every record) := by
  simp [reminderState, get?]

/-- What a dispatch makes of the reminder. -/
theorem applyChange_dispatch (acceptedAt : Instant) :
    (reminderState id (some record)).applyChange (.dispatch id (some acceptedAt))
      = (resolveEveryOccurrence record acceptedAt.epoch).map fun occurrence =>
        reminderState id (occurrence.nextScheduledAt.map fun next =>
          { record with scheduledAt := next }) := by
  rw [FoldedSchedules.applyChange, get?_reminderState]
  simp only [dispatchedRecord]
  cases resolveEveryOccurrence record acceptedAt.epoch with
  | error e => rfl
  | ok occurrence =>
    cases hnext : occurrence.nextScheduledAt with
    | none =>
      simp [Except.map, hnext, reminderState, OrderedMap.delete]
    | some next =>
      simp [Except.map, hnext, reminderState, OrderedMap.set, OrderedMap.keys]

/-- What is due is what the dispatch reports. -/
theorem dueDecision_due {acceptedAt : Instant} {occurrence : EveryOccurrence}
    (h : resolveEveryOccurrence record acceptedAt.epoch = .ok occurrence) :
    dueDecision (reminderState id (some record)) acceptedAt.epoch
      = .ok (.every [{ record, occurrenceAt := occurrence.occurrenceAt }] acceptedAt) := by
  have hdue := (resolveEveryOccurrence_ok h).1
  have hrecords : (reminderState id (some record)).records = [.every record] := rfl
  have hnone : dueEntries (reminderState id (some record)) acceptedAt.epoch false = [] := by
    simp [dueEntries, hrecords, ScheduleRecord.isEvery]
  have hone : dueEntries (reminderState id (some record)) acceptedAt.epoch true
      = [.every record] := by
    simp [dueEntries, hrecords, ScheduleRecord.isEvery, ScheduleRecord.scheduledAt, hdue]
  rw [dueDecision, hnone]
  simp only [hone, everyReminders, h, Except.map]
  rw [dif_pos ⟨acceptedAt.min, acceptedAt.max⟩]

end

/-! ## Runs -/

/-- `record` is a later state of the reminder created as `first`. -/
structure StateOf (first record : EveryScheduleRecord) : Prop where
  id : record.id = first.id
  everySeconds : record.everySeconds = first.everySeconds
  aligned : Aligned first.scheduledAt.epoch first.interval record.scheduledAt.epoch

variable {first record : EveryScheduleRecord}

theorem StateOf.interval (h : StateOf first record) : record.interval = first.interval := by
  rw [EveryScheduleRecord.interval, EveryScheduleRecord.interval, h.everySeconds]

/-- What one accepted dispatch reports and leaves. -/
structure Dispatched (first record : EveryScheduleRecord) (acceptedAt : Instant)
    (occurrence next : Int) (after : Option EveryScheduleRecord) : Prop where
  latest : IsGreatest {x | Aligned first.scheduledAt.epoch first.interval x
    ∧ x ≤ acceptedAt.epoch} occurrence
  following : IsLeast {x | Aligned first.scheduledAt.epoch first.interval x
    ∧ acceptedAt.epoch < x} next
  /-- The reminder is retired exactly when the next instant leaves the four-digit years. -/
  target : after.map (·.scheduledAt.epoch)
    = if next ≤ MAX_FOUR_DIGIT_YEAR_MS then some next else none
  state : ∀ record ∈ after, StateOf first record

theorem StateOf.dispatch (h : StateOf first record)
    {acceptedAt : Instant} {folded : FoldedSchedules}
    (haccepted : (reminderState first.id (some record)).applyChange
      (.dispatch first.id (some acceptedAt)) = .ok folded) :
    ∃ occurrence next after, folded = reminderState first.id after
      ∧ dueDecision (reminderState first.id (some record)) acceptedAt.epoch
        = .ok (.every [{ record, occurrenceAt := occurrence }] acceptedAt)
      ∧ record.scheduledAt.epoch ≤ occurrence.epoch
      ∧ Dispatched first record acceptedAt occurrence.epoch next after := by
  rw [applyChange_dispatch] at haccepted
  obtain ⟨occurrence, hresolve, haccepted⟩ := Except.bind_eq_ok.mp haccepted
  obtain rfl := Except.ok.inj haccepted
  obtain ⟨hdue, hmax⟩ := resolveEveryOccurrence_ok hresolve
  have halign := h.aligned
  rw [← h.interval] at halign
  obtain ⟨found, next, hfound, hgreatest, hleast, htarget⟩ :=
    resolveEveryOccurrence_due halign hdue hmax
  obtain rfl := Except.ok.inj (hresolve.symm.trans hfound)
  have hreached := hgreatest.2 ⟨halign, hdue⟩
  rw [h.interval] at hgreatest hleast
  refine ⟨occurrence.occurrenceAt, next, _, rfl, dueDecision_due hresolve, hreached,
    hgreatest, hleast, ?_, ?_⟩
  · rw [Option.map_map]
    exact htarget
  intro later hlater
  obtain ⟨target, hnext, rfl⟩ := Option.map_eq_some_iff.1 hlater
  rw [hnext] at htarget
  refine ⟨h.id, h.everySeconds, ?_⟩
  split at htarget
  · obtain rfl := Option.some.inj htarget
    exact hleast.1.1
  · cases htarget

variable {folded final : FoldedSchedules}

theorem applyChanges_append {before after : List ScheduleChange} :
    folded.applyChanges (before ++ after) = .ok final
      ↔ ∃ middle, folded.applyChanges before = .ok middle
        ∧ middle.applyChanges after = .ok final := by
  induction before generalizing folded with
  | nil => simp [FoldedSchedules.applyChanges]
  | cons change before ih =>
    rw [cons_append, FoldedSchedules.applyChanges, FoldedSchedules.applyChanges]
    cases folded.applyChange change with
    | error e => simp
    | ok next => exact ih

theorem applyChanges_cons {change : ScheduleChange} {changes : List ScheduleChange} :
    folded.applyChanges (change :: changes) = .ok final
      ↔ ∃ next, folded.applyChange change = .ok next ∧ next.applyChanges changes = .ok final := by
  rw [FoldedSchedules.applyChanges]
  cases folded.applyChange change <;> simp

/-- A run of accepted dispatches reports one occurrence each, none before the target it
started from, and every one after the one before. -/
theorem StateOf.run (h : StateOf first record)
    {acceptedAts : List Instant} {folded : FoldedSchedules}
    (haccepted : (reminderState first.id (some record)).applyChanges
      (dispatches first.id acceptedAts) = .ok folded) :
    (∃ after, folded = reminderState first.id after ∧ ∀ record ∈ after, StateOf first record)
      ∧ (reported (reminderState first.id (some record))
          (dispatches first.id acceptedAts)).length = acceptedAts.length
      ∧ (reported (reminderState first.id (some record))
          (dispatches first.id acceptedAts)).Pairwise (· < ·)
      ∧ ∀ occurrence ∈ reported (reminderState first.id (some record))
          (dispatches first.id acceptedAts), record.scheduledAt.epoch ≤ occurrence := by
  induction acceptedAts generalizing record with
  | nil =>
    obtain rfl := Except.ok.inj haccepted
    exact ⟨⟨some record, rfl, by simpa using h⟩, rfl, .nil, by simp [reported, dispatches]⟩
  | cons acceptedAt acceptedAts ih =>
    obtain ⟨middle, happly, hrest⟩ := applyChanges_cons.1 haccepted
    obtain ⟨occurrence, next, after, rfl, hdecision, hreached, hdispatched⟩ := h.dispatch happly
    have hnow : reportedAt (reminderState first.id (some record)) first.id acceptedAt
        = [occurrence.epoch] := by
      simp [reportedAt, hdecision, h.id]
    have hreported : reported (reminderState first.id (some record))
        (dispatches first.id (acceptedAt :: acceptedAts))
        = occurrence.epoch :: reported (reminderState first.id after)
          (dispatches first.id acceptedAts) := by
      rw [dispatches, map_cons, reported]
      simp only [hnow, happly]
      rfl
    rw [hreported]
    cases after with
    | none =>
      -- A retired reminder is the end of the run.
      cases acceptedAts with
      | nil =>
        obtain rfl := Except.ok.inj hrest
        refine ⟨⟨none, rfl, by simp⟩, rfl, pairwise_singleton _ _, ?_⟩
        simpa [reported, dispatches] using hreached
      | cons later acceptedAts =>
        obtain ⟨_, hretired, -⟩ := applyChanges_cons.1 hrest
        cases hretired
    | some record' =>
      obtain ⟨hfinal, hlength, hpairwise, hbound⟩ := ih (hdispatched.state record' rfl) hrest
      have hnext : record'.scheduledAt.epoch = next := by
        have htarget := hdispatched.target
        split at htarget
        · exact Option.some.inj htarget
        · cases htarget
      have hlater : occurrence.epoch < record'.scheduledAt.epoch := by
        have hafter := hdispatched.following.1.2
        have hbefore := hdispatched.latest.1.2
        omega
      refine ⟨hfinal, by simp [hlength], pairwise_cons.2 ⟨?_, hpairwise⟩, ?_⟩
      · intro other hother
        exact hlater.trans_le (hbound other hother)
      intro other hother
      rcases mem_cons.1 hother with rfl | hother
      · exact hreached
      · exact hreached.trans (hlater.le.trans (hbound other hother))

/-! ## Logs -/

/-- The changes that a log carries. -/
def decodedChanges (events : List SessionEvent) : Except String (List ScheduleChange) :=
  (events.filterMap changePayload).mapM decodeScheduleChange

theorem foldEvents_ok {events : List SessionEvent}
    {changes : List ScheduleChange} (hchanges : decodedChanges events = .ok changes)
    (h : foldEvents folded events = .ok final) : folded.applyChanges changes = .ok final := by
  induction events generalizing folded changes with
  | nil =>
    obtain rfl := Except.ok.inj hchanges
    exact h
  | cons event events ih =>
    rw [foldEvents] at h
    cases hpayload : changePayload event with
    | none =>
      rw [hpayload] at h
      rw [decodedChanges, filterMap_cons, hpayload] at hchanges
      exact ih hchanges h
    | some data =>
      simp only [hpayload] at h
      rw [decodedChanges, filterMap_cons, hpayload, mapM_cons] at hchanges
      split at h
      · cases h
      rename_i change hdecoded
      simp only [hdecoded, bind, Except.bind] at h hchanges
      obtain ⟨rest, hrest, hchanges⟩ := Except.bind_eq_ok.mp hchanges
      simp only [hrest, pure, Except.pure, Except.ok.injEq] at hchanges
      subst hchanges
      rw [FoldedSchedules.applyChanges]
      split at h
      · cases h
      rename_i next happly
      exact ih hrest h

theorem create_reminder (first : EveryScheduleRecord) :
    FoldedSchedules.empty.applyChange (.create (.every first))
      = .ok (reminderState first.id (some first)) := by
  simp [FoldedSchedules.applyChange, FoldedSchedules.empty, reminderState, ScheduleRecord.id,
    OrderedMap.set, OrderedMap.keys]

/-- In every accepted log of one fixed-rate reminder every target stays on the grid of the
first. The decision behind each dispatch reports the latest instant of the grid that is not
after it and the dispatch moves the target to the first one after it, or retires the reminder
when that one leaves the four-digit years. The reported occurrences increase strictly. -/
theorem every_reminder {events : List SessionEvent} {seedLength : Nat} {folded : FoldedSchedules}
    {first : EveryScheduleRecord} {acceptedAts : List Instant}
    (hfold : foldScheduleEvents events seedLength = .ok folded)
    (hlog : decodedChanges (events.drop seedLength)
      = .ok (.create (.every first) :: dispatches first.id acceptedAts)) :
    (∀ record ∈ folded.records,
        Aligned first.scheduledAt.epoch first.interval record.scheduledAt.epoch)
      ∧ (∀ earlier acceptedAt later, acceptedAts = earlier ++ acceptedAt :: later →
        ∃ record occurrence next after,
          FoldedSchedules.empty.applyChanges
            (.create (.every first) :: dispatches first.id earlier)
            = .ok (reminderState first.id (some record))
          ∧ dueDecision (reminderState first.id (some record)) acceptedAt.epoch
            = .ok (.every [{ record, occurrenceAt := occurrence }] acceptedAt)
          ∧ StateOf first record
          ∧ Dispatched first record acceptedAt occurrence.epoch next after
          ∧ FoldedSchedules.empty.applyChanges
            (.create (.every first) :: dispatches first.id (earlier ++ [acceptedAt]))
            = .ok (reminderState first.id after))
      ∧ (reported .empty (.create (.every first) :: dispatches first.id acceptedAts)).length
        = acceptedAts.length
      ∧ (reported .empty (.create (.every first) :: dispatches first.id acceptedAts)).Pairwise
        (· < ·)
      ∧ ∀ elapsed interval, 0 ≤ elapsed →
        elapsed ≤ MAX_FOUR_DIGIT_YEAR_MS - MIN_FOUR_DIGIT_YEAR_MS → 0 < interval →
        everySteps elapsed interval = elapsed / interval := by
  have hstart : StateOf first first := ⟨rfl, rfl, Int.ModEq.refl _⟩
  have happly : FoldedSchedules.empty.applyChanges
      (.create (.every first) :: dispatches first.id acceptedAts) = .ok folded := by
    rw [foldScheduleEvents] at hfold
    split at hfold
    case isTrue => cases hfold
    case isFalse => exact foldEvents_ok hlog hfold
  have hcreate (changes : List ScheduleChange) :
      FoldedSchedules.empty.applyChanges (.create (.every first) :: changes)
        = (reminderState first.id (some first)).applyChanges changes := by
    rw [FoldedSchedules.applyChanges, create_reminder]
  have hreported : reported .empty (.create (.every first) :: dispatches first.id acceptedAts)
      = reported (reminderState first.id (some first)) (dispatches first.id acceptedAts) := by
    simp [reported, create_reminder]
  rw [hcreate] at happly
  obtain ⟨⟨final, rfl, hfinal⟩, hlength, hpairwise, -⟩ := hstart.run happly
  rw [hreported]
  refine ⟨?_, ?_, hlength, hpairwise, fun _ _ => everySteps_eq⟩
  · intro record hrecord
    cases final with
    | none => simp [FoldedSchedules.records, reminderState] at hrecord
    | some last =>
      obtain rfl : record = .every last := by
        simpa [FoldedSchedules.records, reminderState] using hrecord
      exact (hfinal last rfl).aligned
  rintro earlier acceptedAt later rfl
  rw [dispatches, map_append, map_cons] at happly
  obtain ⟨middle, hearlier, hrest⟩ := applyChanges_append.1 happly
  obtain ⟨moved, hmoved, -⟩ := applyChanges_cons.1 hrest
  obtain ⟨⟨reached, rfl, hreached⟩, -⟩ := hstart.run hearlier
  cases reached with
  | none => cases hmoved
  | some record =>
    obtain ⟨occurrence, next, after, rfl, hdecision, -, hdispatched⟩ :=
      (hreached record rfl).dispatch hmoved
    refine ⟨record, occurrence, next, after, ?_, hdecision, hreached record rfl, hdispatched, ?_⟩
    · rw [hcreate]
      exact hearlier
    rw [hcreate, dispatches, map_append]
    refine applyChanges_append.2 ⟨_, hearlier, ?_⟩
    rw [map_singleton, applyChanges_cons]
    exact ⟨_, hmoved, rfl⟩

/-! ## A reminder every hour -/

def changeEvent (seq : Nat) (fields : List (JsString × Json)) : SessionEvent :=
  { seq, time := 0, data := .other "schedule/change" (.obj fields) (by decide) }

def hourlyLog : List SessionEvent :=
  [changeEvent 0 [("version", .num (.int 1)), ("operation", .str "create"),
      ("schedule", .obj [("id", .str "schedule-1"), ("kind", .str "every"), ("prompt", .str "look"),
        ("everySeconds", .num (.int 3600)), ("scheduledAt", .str "2026-01-01T00:00:00.000Z")])],
    changeEvent 1 [("version", .num (.int 1)), ("operation", .str "dispatch"),
      ("id", .str "schedule-1"), ("acceptedAt", .str "2026-01-01T02:30:00.000Z")]]

/-- The record as created, or as moved to a later target of its first day. -/
def hourly (hour : Fin 24) : EveryScheduleRecord where
  id := "schedule-1"
  prompt := "look"
  everySeconds := 3600
  scheduledAt :=
    { epoch := 1767225600000 + hour.val * 3600000
      min := by rw [MIN_FOUR_DIGIT_YEAR_MS_eq]; omega
      max := by rw [MAX_FOUR_DIGIT_YEAR_MS_eq]; omega }
  rare := by decide
  safe := by decide

def halfPastTwo : Instant where
  epoch := 1767234600000
  min := by decide
  max := by decide

/-- A dispatch at half past two reports the occurrence of two, and moves on to three. -/
theorem every_reminder_hourly :
    (∃ record occurrence next after,
      dueDecision (reminderState "schedule-1" (some record)) halfPastTwo.epoch
        = .ok (.every [{ record, occurrenceAt := occurrence }] halfPastTwo)
      ∧ Dispatched (hourly 0) record halfPastTwo occurrence.epoch next after)
      ∧ (match foldScheduleEvents hourlyLog 0 with
        | .ok folded => folded.records
        | .error _ => []) = [.every (hourly 3)] := by
  have hfold : foldScheduleEvents hourlyLog 0 = .ok (reminderState "schedule-1" (some (hourly 3))) := by
    decide +kernel
  have hlog : decodedChanges (hourlyLog.drop 0)
      = .ok (.create (.every (hourly 0)) :: dispatches (hourly 0).id [halfPastTwo]) := by
    decide +kernel
  refine ⟨?_, by decide +kernel⟩
  obtain ⟨record, occurrence, next, after, -, hdecision, -, hdispatched, -⟩ :=
    (every_reminder hfold hlog).2.1 [] halfPastTwo [] rfl
  exact ⟨record, occurrence, next, after, hdecision, hdispatched⟩

end Schedule

end Harness
