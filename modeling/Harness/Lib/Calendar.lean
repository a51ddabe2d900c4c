-- SUMMARY: Time values and the proleptic Gregorian calendar, as ECMAScript defines `Date` in UTC.
import Mathlib.Algebra.Order.BigOperators.Group.List
import Mathlib.Tactic.Linarith

/-!
# Calendar

A time value counts the milliseconds since 1970. `epoch` is what the UTC setters of a date
build from fields, normalizing those that overflow, and `parts` is what its getters read.
-/

namespace Calendar

def msPerDay : Int := 86400000

/-! ## Years -/

def dayFromYear (year : Int) : Int :=
  365 * (year - 1970) + (year - 1969) / 4 - (year - 1901) / 100 + (year - 1601) / 400

def isLeapYear (year : Int) : Bool :=
  year % 4 = 0 && (year % 100 ≠ 0 || year % 400 = 0)

theorem dayFromYear_succ (year : Int) :
    dayFromYear (year + 1) = dayFromYear year + if isLeapYear year then 366 else 365 := by
  have hfour : (year + 1 - 1969) / 4 = (year - 1969) / 4 + if year % 4 = 0 then 1 else 0 := by
    split <;> omega
  have hcentury : (year + 1 - 1901) / 100
      = (year - 1901) / 100 + if year % 100 = 0 then 1 else 0 := by
    split <;> omega
  have hquad : (year + 1 - 1601) / 400
      = (year - 1601) / 400 + if year % 400 = 0 then 1 else 0 := by
    split <;> omega
  rw [dayFromYear, dayFromYear, hfour, hcentury, hquad]
  simp only [isLeapYear]
  by_cases h4 : year % 4 = 0 <;> by_cases h100 : year % 100 = 0 <;>
    by_cases h400 : year % 400 = 0 <;> simp [h4, h100, h400] <;> omega

/-- The year of a day: the last that begins no later. The first guess is off by at most one. -/
def yearFromDay (day : Int) : Int :=
  let guess := 1970 + day * 400 / 146097
  if dayFromYear (guess + 1) ≤ day then guess + 1
  else if day < dayFromYear guess then guess - 1
  else guess

theorem yearFromDay_spec (day : Int) :
    dayFromYear (yearFromDay day) ≤ day ∧ day < dayFromYear (yearFromDay day + 1) := by
  simp only [yearFromDay]
  generalize hguess : 1970 + day * 400 / 146097 = guess
  split
  case isTrue hlate =>
    refine ⟨hlate, ?_⟩
    simp only [dayFromYear]
    omega
  case isFalse hlate =>
    split
    case isTrue hearly =>
      refine ⟨?_, by simpa using hearly⟩
      simp only [dayFromYear]
      omega
    case isFalse hearly => exact ⟨not_lt.1 hearly, not_le.1 hlate⟩

theorem dayFromYear_le {year later : Int} (h : year < later) :
    dayFromYear (year + 1) ≤ dayFromYear later := by
  simp only [dayFromYear]
  omega

/-! ## Months -/

def monthLengths (leap : Bool) : List Int :=
  [31, if leap then 29 else 28, 31, 30, 31, 30, 31, 31, 30, 31, 30, 31]

def daysBefore (lengths : List Int) (month : Nat) : Int := (lengths.take month).sum

def monthOf : List Int → Int → Nat
  | [], _ => 0
  | length :: lengths, day => if day < length then 0 else monthOf lengths (day - length) + 1

@[simp] theorem daysBefore_zero (lengths : List Int) : daysBefore lengths 0 = 0 := rfl

@[simp] theorem daysBefore_succ (length : Int) (lengths : List Int) (month : Nat) :
    daysBefore (length :: lengths) (month + 1) = length + daysBefore lengths month := by
  simp [daysBefore]

/-- A day of the table lies in its month. -/
theorem monthOf_spec {lengths : List Int} {day : Int} (hfrom : 0 ≤ day) (hto : day < lengths.sum) :
    ∃ length, lengths[monthOf lengths day]? = some length
      ∧ daysBefore lengths (monthOf lengths day) ≤ day
      ∧ day < daysBefore lengths (monthOf lengths day) + length := by
  induction lengths generalizing day with
  | nil =>
    rw [List.sum_nil] at hto
    omega
  | cons first lengths ih =>
    rw [List.sum_cons] at hto
    rw [monthOf]
    split
    case isTrue hlt => exact ⟨first, rfl, hfrom, by simpa using hlt⟩
    case isFalse hge =>
      have hrest : 0 ≤ day - first := by omega
      obtain ⟨length, hget, hstart, hend⟩ := ih hrest (by omega)
      refine ⟨length, by simpa using hget, ?_, ?_⟩ <;> rw [daysBefore_succ] <;> omega

theorem sum_monthLengths (leap : Bool) :
    (monthLengths leap).sum = if leap then 366 else 365 := by
  cases leap <;> rfl

/-! ## Fields -/

/-- The fields of a date; `month` and `day` count from 1. -/
@[ext] structure Parts where
  year : Int
  month : Int
  day : Int
  hour : Int
  minute : Int
  second : Int
  millisecond : Int
  deriving DecidableEq

/-- The day that `year`, `month` and `day` name; months beyond a year's carry over. -/
def makeDay (year month day : Int) : Int :=
  let year := year + (month - 1) / 12
  dayFromYear year
    + daysBefore (monthLengths (isLeapYear year)) ((month - 1) % 12).toNat + day - 1

def makeTime (hour minute second millisecond : Int) : Int :=
  hour * 3600000 + minute * 60000 + second * 1000 + millisecond

/-- What the UTC setters build. -/
def epoch (p : Parts) : Int :=
  makeDay p.year p.month p.day * msPerDay + makeTime p.hour p.minute p.second p.millisecond

/-- What the UTC getters read. -/
def parts (epoch : Int) : Parts :=
  let day := epoch / msPerDay
  let time := epoch % msPerDay
  let year := yearFromDay day
  let lengths := monthLengths (isLeapYear year)
  let month := monthOf lengths (day - dayFromYear year)
  { year
    month := month + 1
    day := day - dayFromYear year - daysBefore lengths month + 1
    hour := time / 3600000
    minute := time / 60000 % 60
    second := time / 1000 % 60
    millisecond := time % 1000 }

theorem monthOf_yearFromDay (day : Int) :
    ∃ length, (monthLengths (isLeapYear (yearFromDay day)))[monthOf
        (monthLengths (isLeapYear (yearFromDay day))) (day - dayFromYear (yearFromDay day))]?
        = some length
      ∧ daysBefore (monthLengths (isLeapYear (yearFromDay day)))
          (monthOf (monthLengths (isLeapYear (yearFromDay day)))
            (day - dayFromYear (yearFromDay day))) ≤ day - dayFromYear (yearFromDay day)
      ∧ day - dayFromYear (yearFromDay day)
        < daysBefore (monthLengths (isLeapYear (yearFromDay day)))
          (monthOf (monthLengths (isLeapYear (yearFromDay day)))
            (day - dayFromYear (yearFromDay day))) + length := by
  obtain ⟨hstart, hend⟩ := yearFromDay_spec day
  rw [dayFromYear_succ, ← sum_monthLengths] at hend
  exact monthOf_spec (by omega) (by omega)

/-- The fields of a time value name it. -/
theorem epoch_parts (value : Int) : epoch (parts value) = value := by
  obtain ⟨length, hget, -, -⟩ := monthOf_yearFromDay (value / msPerDay)
  simp only [epoch, parts, makeDay, makeTime]
  generalize yearFromDay (value / msPerDay) = year at hget ⊢
  generalize monthOf (monthLengths (isLeapYear year)) (value / msPerDay - dayFromYear year)
    = month at hget ⊢
  have hlt : month < 12 := (List.getElem?_eq_some_iff.1 hget).1
  have hcarry : ((month : Int) + 1 - 1) / 12 = 0 := by omega
  have hindex : (((month : Int) + 1 - 1) % 12).toNat = month := by omega
  rw [hcarry, hindex, add_zero]
  generalize dayFromYear year = start
  generalize daysBefore (monthLengths (isLeapYear year)) month = before
  simp only [msPerDay]
  omega

/-- No two time values have the same fields. -/
theorem parts_injective : Function.Injective parts :=
  Function.LeftInverse.injective epoch_parts

/-- A real date and time of day. -/
structure Real (p : Parts) : Prop where
  month : 1 ≤ p.month
  day : ∃ length, (monthLengths (isLeapYear p.year))[(p.month - 1).toNat]? = some length
    ∧ 1 ≤ p.day ∧ p.day ≤ length
  hour : 0 ≤ p.hour ∧ p.hour < 24
  minute : 0 ≤ p.minute ∧ p.minute < 60
  second : 0 ≤ p.second ∧ p.second < 60
  millisecond : 0 ≤ p.millisecond ∧ p.millisecond < 1000

end Calendar
