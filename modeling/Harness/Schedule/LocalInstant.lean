-- SUMMARY: The resolution of a local wall-clock value in a time zone, from `schedule/src/domain.ts`.
import Harness.Lib.Calendar

/-!
# Local instants

`Intl` formats an instant in a time zone; here a formatter is what it answers. The offsets
that a zone has around a local value are sampled, and every sampled offset gives one
candidate, which the formatter has to confirm.
-/

namespace Harness

namespace Schedule

/-! ## Input errors -/

inductive ScheduleInputErrorCode where
  | invalidPrompt
  | invalidRule
  | invalidTimeZone
  | notFuture
  | timeOutOfRange
  | frequencyTooHigh
  deriving DecidableEq

/-- Error from a model-supplied rule that cannot become a record. -/
structure ScheduleInputError where
  code : ScheduleInputErrorCode
  message : String
  deriving DecidableEq

/-! ## Calendar values -/

def MIN_FOUR_DIGIT_YEAR_MS : Int := Calendar.epoch ⟨1, 1, 1, 0, 0, 0, 0⟩

def MAX_FOUR_DIGIT_YEAR_MS : Int := Calendar.epoch ⟨9999, 12, 31, 23, 59, 59, 999⟩

theorem MIN_FOUR_DIGIT_YEAR_MS_eq : MIN_FOUR_DIGIT_YEAR_MS = -62135596800000 := by decide

theorem MAX_FOUR_DIGIT_YEAR_MS_eq : MAX_FOUR_DIGIT_YEAR_MS = 253402300799999 := by decide

abbrev CalendarParts := Calendar.Parts

/-- The largest time value of a date, either way from 1970. -/
def MAX_TIME_VALUE : Int := 8640000000000000

/-- Convert exact calendar fields to a UTC-shaped epoch while rejecting normalization. -/
def calendarEpoch (parts : CalendarParts) : Except ScheduleInputError Int :=
  let epoch := Calendar.epoch parts
  if epoch < -MAX_TIME_VALUE ∨ MAX_TIME_VALUE < epoch ∨ Calendar.parts epoch ≠ parts then
    .error
      { code := .invalidRule
        message := "The at value must be a real ISO calendar date and time." }
  else .ok epoch

theorem calendarEpoch_ok {parts : CalendarParts} {epoch : Int}
    (h : calendarEpoch parts = .ok epoch) : Calendar.parts epoch = parts := by
  simp only [calendarEpoch] at h
  split at h
  case isTrue => cases h
  case isFalse hreal =>
    cases h
    by_contra hne
    exact hreal (.inr (.inr hne))

/-! ## Projections -/

inductive OffsetSign where
  | plus
  | minus
  deriving DecidableEq

/-- The groups of an offset name such as `GMT-03:30`. -/
structure OffsetGroups where
  sign : OffsetSign
  hour : Int
  minute : Int
  second : Option Int
  deriving DecidableEq

/-- What the formatter prints for an instant. The name is none where it is no offset name,
and its groups are none for a bare `GMT`. -/
structure FormattedInstant where
  fields : CalendarParts
  timeZoneName : Option (Option OffsetGroups)

/-- Exact local fields, and the zone offset that produced them. -/
structure LocalProjection where
  fields : CalendarParts
  offset : Int
  deriving DecidableEq

/-- The milliseconds that the groups of an offset name say. -/
def OffsetGroups.offset (groups : OffsetGroups) : Int :=
  let direction := match groups.sign with
    | .minus => -1
    | .plus => 1
  direction * (groups.hour * 3600 + groups.minute * 60 + groups.second.getD 0) * 1000

abbrev Formatter := Int → FormattedInstant

/-- Format one epoch into exact local fields and the zone offset that produced them. -/
def localProjection (formatter : Formatter) (epoch : Int) :
    Except ScheduleInputError LocalProjection :=
  let formatted := formatter epoch
  match formatted.timeZoneName with
  | none =>
    .error
      { code := .invalidTimeZone
        message := "time_zone did not expose a usable UTC offset." }
  | some none => .ok { fields := formatted.fields, offset := 0 }
  | some (some groups) => .ok { fields := formatted.fields, offset := groups.offset }

/-! ## Resolution -/

def sampleDeltas : List Int := [-172800000, -86400000, 0, 86400000, 172800000]

/-- The sampled instant, held inside the representable range. -/
def sampleAt (localEpoch delta : Int) : Int :=
  min MAX_FOUR_DIGIT_YEAR_MS (max MIN_FOUR_DIGIT_YEAR_MS (localEpoch + delta))

/-- `offsets.add(offset)`. -/
def addOffset (offsets : List Int) (offset : Int) : List Int :=
  if offset ∈ offsets then offsets else offsets ++ [offset]

def sampleOffsets (formatter : Formatter) (localEpoch : Int) :
    List Int → List Int → Except ScheduleInputError (List Int)
  | [], offsets => .ok offsets
  | delta :: deltas, offsets =>
    match localProjection formatter (sampleAt localEpoch delta) with
    | .error e => .error e
    | .ok projected =>
      sampleOffsets formatter localEpoch deltas (addOffset offsets projected.offset)

structure Candidates where
  found : List Int
  outOfRange : Bool

/-- The candidates that the formatter confirms. -/
def collectCandidates (formatter : Formatter) (parts : CalendarParts) (localEpoch : Int) :
    List Int → Candidates → Except ScheduleInputError Candidates
  | [], candidates => .ok candidates
  | offset :: offsets, candidates =>
    let candidate := localEpoch - offset
    if candidate < MIN_FOUR_DIGIT_YEAR_MS ∨ MAX_FOUR_DIGIT_YEAR_MS < candidate then
      collectCandidates formatter parts localEpoch offsets { candidates with outOfRange := true }
    else
      match localProjection formatter candidate with
      | .error e => .error e
      | .ok projected =>
        if projected.fields = parts then
          collectCandidates formatter parts localEpoch offsets
            { candidates with found := candidates.found ++ [candidate] }
        else collectCandidates formatter parts localEpoch offsets candidates

def timeOutOfRange : ScheduleInputError :=
  { code := .timeOutOfRange
    message := "The scheduled time must be representable as a four-digit-year RFC 3339 UTC instant." }

def localTimeMissing : ScheduleInputError :=
  { code := .invalidRule
    message := "The local at time does not exist in the selected time zone." }

/-- The earliest confirmed candidate, or why there is none. -/
def Candidates.first (candidates : Candidates) : Except ScheduleInputError Int :=
  match (candidates.found.mergeSort (· ≤ ·)).head? with
  | some first => .ok first
  | none => if candidates.outOfRange then .error timeOutOfRange else .error localTimeMissing

/-- Resolve a local wall-clock value, choosing the first instant in an overlap and rejecting
a gap. -/
def resolveLocalInstant (parts : CalendarParts) (formatter : Formatter) :
    Except ScheduleInputError Int :=
  match calendarEpoch parts with
  | .error e => .error e
  | .ok localEpoch =>
    match sampleOffsets formatter localEpoch sampleDeltas [] with
    | .error e => .error e
    | .ok offsets =>
      match collectCandidates formatter parts localEpoch offsets
          { found := [], outOfRange := false } with
      | .error e => .error e
      | .ok candidates => candidates.first

/-! ## Time zones -/

def hours (n : Int) : Int := n * 3600000

/-- A zone's offset from UTC at every instant, in milliseconds. -/
structure Zone where
  offset : Int → Int
  bounded : ∀ t, -hours 16 ≤ offset t ∧ offset t ≤ hours 16
  /-- At most one transition in any 96-hour window. -/
  sparse : ∀ start t t', start < t → t ≤ start + hours 96 → start < t' → t' ≤ start + hours 96 →
    offset t ≠ offset (t - 1) → offset t' ≠ offset (t' - 1) → t = t'

namespace Zone

variable (zone : Zone)

/-- The local fields of an instant. -/
def wallClock (t : Int) : CalendarParts := Calendar.parts (t + zone.offset t)

/-- A formatter that projects representable instants by the zone's offsets. -/
def Formats (formatter : Formatter) : Prop :=
  ∀ t, MIN_FOUR_DIGIT_YEAR_MS ≤ t → t ≤ MAX_FOUR_DIGIT_YEAR_MS →
    localProjection formatter t = .ok { fields := zone.wallClock t, offset := zone.offset t }

end Zone

end Schedule

end Harness
