import Meridian.Limine.Requests
import Meridian.Lib.Calendar
import Mathlib.Tactic.IntervalCases

/-!
# The date at boot

The seconds that `UnixTimeFromEfi` of `loaders/limine/requests.c` answers with are those from the beginning
of 1970, by the calendar that adds one day at a time.
-/

namespace Meridian.Limine

open Lib.Calendar

def EfiTime.date (time : EfiTime) : Date := ⟨time.year, time.month, time.day⟩

/-- The seconds of the day that have passed. -/
def EfiTime.seconds (time : EfiTime) : ℤ := time.hour * 3600 + time.minute * 60 + time.second

structure EfiTime.Valid (time : EfiTime) : Prop where
  date : time.date.Valid
  hour : time.hour < 24
  minute : time.minute < 60
  second : time.second < 60

/-- The order of the calendar and of the clock. -/
def EfiTime.Before (time time' : EfiTime) : Prop :=
  time.date.Before time'.date ∨ time.date = time'.date ∧
    (time.hour < time'.hour ∨ time.hour = time'.hour ∧
      (time.minute < time'.minute ∨ time.minute = time'.minute ∧ time.second < time'.second))

def unixEpoch : Date := ⟨1970, 1, 1⟩

theorem unixEpoch_valid : unixEpoch.Valid := by constructor <;> decide

/-! ### The closed form -/

theorem era_eq (year : ℤ) : (if year ≥ 0 then year else year - 399).tdiv 400 = year / 400 := by
  split
  · rename_i nonneg
    exact Int.tdiv_eq_ediv_of_nonneg nonneg
  · rename_i negative
    have mirrored : year - 399 = -(399 - year) := by omega
    rw [mirrored, Int.neg_tdiv, Int.tdiv_eq_ediv_of_nonneg (by omega)]
    omega

/-- The days of the years before a March, which begin with a March. -/
theorem doe_eq (year : ℤ) :
    year / 400 * 146097 + ((year - year / 400 * 400) * 365 + (year - year / 400 * 400).tdiv 4 -
      (year - year / 400 * 400).tdiv 100) = yearStart (year + 1) := by
  have nonneg : 0 ≤ year - year / 400 * 400 := by omega
  rw [Int.tdiv_eq_ediv_of_nonneg nonneg, Int.tdiv_eq_ediv_of_nonneg nonneg]
  unfold yearStart
  omega

/-- The months from March on, in the year that begins with it. -/
theorem doy_eq (year : ℤ) {month : ℕ} (pos : 1 ≤ month) (le : month ≤ 12) :
    yearStart ((year - if (month : ℤ) ≤ 2 then 1 else 0) + 1) +
      (153 * ((month : ℤ) + if (month : ℤ) > 2 then -3 else 9) + 2).tdiv 5 =
    yearStart year + monthStart year month + 306 := by
  have whole := monthStart_year year
  by_cases leap : Leap year
  · have months : monthStart year 13 = 366 := by simp [monthStart, monthLength, leap]
    interval_cases month <;> simp [monthStart, monthLength, leap] <;> omega
  · have months : monthStart year 13 = 365 := by simp [monthStart, monthLength, leap]
    interval_cases month <;> simp [monthStart, monthLength, leap] <;> omega
theorem unixTimeFromEfi_eq {time : EfiTime} (valid : time.Valid) : unixTimeFromEfi time =
    (time.date.dayNumber - unixEpoch.dayNumber) * 86400 + time.seconds := by
  have pos : 1 ≤ time.month := valid.date.month_pos
  have le : time.month ≤ 12 := valid.date.month_le
  have march := doy_eq time.year pos le
  have epoch : unixEpoch.dayNumber = 719163 := by decide
  have number : time.date.dayNumber = yearStart time.year + monthStart time.year time.month + time.day := rfl
  have doe := doe_eq ((time.year : ℤ) - if (time.month : ℤ) ≤ 2 then 1 else 0)
  unfold unixTimeFromEfi EfiTime.seconds
  dsimp only
  rw [era_eq, epoch, number]
  omega

theorem seconds_lt {time : EfiTime} (valid : time.Valid) : 0 ≤ time.seconds ∧ time.seconds < 86400 := by
  have hour := valid.hour
  have minute := valid.minute
  have second := valid.second
  unfold EfiTime.seconds
  omega

/-- The seconds since 1970: those of the days that lie between, and of the day itself. So a later time has
the greater number. -/
theorem unixTimeFromEfi_civil :
    (∀ time : EfiTime, time.Valid → ∃ days, Apart unixEpoch time.date days ∧
      unixTimeFromEfi time = days * 86400 + time.seconds) ∧
    ∀ time time' : EfiTime, time.Valid → time'.Valid → time.Before time' →
      unixTimeFromEfi time < unixTimeFromEfi time' := by
  constructor
  · intro time valid
    exact ⟨_, (apart_iff unixEpoch_valid valid.date).mpr rfl, unixTimeFromEfi_eq valid⟩
  · intro time time' valid valid' before
    rw [unixTimeFromEfi_eq valid, unixTimeFromEfi_eq valid']
    rcases before with earlier | ⟨same, earlier⟩
    · have days := dayNumber_strictMono valid.date valid'.date earlier
      have seconds := seconds_lt valid
      have seconds' := seconds_lt valid'
      omega
    · have minute := valid.minute
      have second := valid.second
      have minute' := valid'.minute
      have second' := valid'.second
      rw [same]
      unfold EfiTime.seconds
      omega

def leapDay : EfiTime := ⟨1968, 2, 29, 23, 59, 59⟩
def nextMarch : EfiTime := ⟨1968, 3, 1, 0, 0, 0⟩

theorem unixTimeFromEfi_leapDay :
    (∃ days, Apart unixEpoch leapDay.date days ∧ unixTimeFromEfi leapDay = days * 86400 + leapDay.seconds) ∧
    unixTimeFromEfi leapDay < unixTimeFromEfi nextMarch := by
  have valid : leapDay.Valid := ⟨by constructor <;> decide, by decide, by decide, by decide⟩
  have valid' : nextMarch.Valid := ⟨by constructor <;> decide, by decide, by decide, by decide⟩
  have before : leapDay.Before nextMarch := .inl (.inr ⟨rfl, .inl (by decide)⟩)
  exact ⟨unixTimeFromEfi_civil.1 leapDay valid, unixTimeFromEfi_civil.2 leapDay nextMarch valid valid' before⟩

end Meridian.Limine
