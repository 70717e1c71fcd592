import Mathlib.Order.Iterate
import Mathlib.Tactic.Common
import Mathlib.Algebra.Group.Nat.Defs

/-!
# The proleptic Gregorian calendar

A date, the date of the next day, and how many days lie between two dates: as many as it takes to count
from one to the other. `dayNumber` gives that number, since it grows by one each day and is strictly
monotone in the order of the dates.
-/

namespace Lib.Calendar

structure Date where
  year : ℤ
  month : ℕ
  day : ℕ
  deriving DecidableEq, Repr

def Leap (year : ℤ) : Prop := year % 4 = 0 ∧ (year % 100 ≠ 0 ∨ year % 400 = 0)

instance (year : ℤ) : Decidable (Leap year) := inferInstanceAs (Decidable (_ ∧ _))

def monthLength (year : ℤ) : ℕ → ℕ
  | 0 => 0
  | 2 => if Leap year then 29 else 28
  | 4 | 6 | 9 | 11 => 30
  | _ => 31

structure Date.Valid (date : Date) : Prop where
  month_pos : 1 ≤ date.month
  month_le : date.month ≤ 12
  day_pos : 1 ≤ date.day
  day_le : date.day ≤ monthLength date.year date.month

def Date.next (date : Date) : Date :=
  if date.day < monthLength date.year date.month then { date with day := date.day + 1 }
  else if date.month < 12 then { date with month := date.month + 1, day := 1 }
  else ⟨date.year + 1, 1, 1⟩

/-- The second date comes the given number of days after the first one, or before it. -/
def Apart (first second : Date) (days : ℤ) : Prop :=
  (∃ n : ℕ, days = n ∧ Date.next^[n] first = second) ∨ ∃ n : ℕ, days = -n ∧ Date.next^[n] second = first

def Date.Before (first second : Date) : Prop :=
  first.year < second.year ∨ first.year = second.year ∧
    (first.month < second.month ∨ first.month = second.month ∧ first.day < second.day)

/-! ### Numbering the days -/

/-- The days of a year before a month. -/
def monthStart (year : ℤ) : ℕ → ℕ
  | 0 => 0
  | month + 1 => monthStart year month + monthLength year month

/-- The days from the beginning of the year 1 to that of the given one. -/
def yearStart (year : ℤ) : ℤ := 365 * (year - 1) + (year - 1) / 4 - (year - 1) / 100 + (year - 1) / 400

def Date.dayNumber (date : Date) : ℤ := yearStart date.year + monthStart date.year date.month + date.day

variable {date first second : Date} {year : ℤ} {month : ℕ} {days : ℤ}

theorem monthLength_pos (pos : 1 ≤ month) : 1 ≤ monthLength year month := by
  unfold monthLength
  split
  · omega
  · split <;> omega
  · omega
  · omega
  · omega
  · omega
  · omega

theorem monthStart_mono {month' : ℕ} (le : month ≤ month') : monthStart year month ≤ monthStart year month' := by
  induction le with
  | refl => exact Nat.le_refl _
  | step _ ih => exact Nat.le_trans ih (Nat.le_add_right _ _)

/-- Twelve months make a year. -/
theorem monthStart_year (year : ℤ) : (monthStart year 13 : ℤ) = yearStart (year + 1) - yearStart year := by
  unfold yearStart
  by_cases leap : Leap year
  · have months : monthStart year 13 = 366 := by simp [monthStart, monthLength, leap]
    unfold Leap at leap
    omega
  · have months : monthStart year 13 = 365 := by simp [monthStart, monthLength, leap]
    unfold Leap at leap
    omega

theorem yearStart_mono {year year' : ℤ} (le : year ≤ year') : yearStart year ≤ yearStart year' := by
  unfold yearStart
  omega

/-! ### One day at a time -/

theorem Date.Valid.next (valid : date.Valid) : date.next.Valid := by
  unfold Date.next
  split
  · rename_i inside
    exact ⟨valid.month_pos, valid.month_le, Nat.succ_pos _, inside⟩
  · split
    · rename_i inside
      exact ⟨Nat.succ_pos _, inside, Nat.le_refl _, monthLength_pos (Nat.succ_pos _)⟩
    · exact ⟨Nat.le_refl _, Nat.le_of_ble_eq_true rfl, Nat.le_refl _, monthLength_pos (Nat.le_refl _)⟩

theorem dayNumber_next (valid : date.Valid) : date.next.dayNumber = date.dayNumber + 1 := by
  unfold Date.next
  split
  · unfold Date.dayNumber
    push_cast
    omega
  · rename_i outside
    have last : date.day = monthLength date.year date.month :=
      Nat.le_antisymm valid.day_le (Nat.le_of_not_lt outside)
    split
    · unfold Date.dayNumber
      rw [monthStart, last]
      push_cast
      omega
    · rename_i outside
      have december : date.month = 12 := Nat.le_antisymm valid.month_le (Nat.le_of_not_lt outside)
      have year : (monthStart date.year 12 : ℤ) + monthLength date.year 12 =
          yearStart (date.year + 1) - yearStart date.year := by
        rw [← monthStart_year, monthStart]
        push_cast
        rfl
      have first : monthStart (date.year + 1) 1 = 0 := rfl
      unfold Date.dayNumber
      rw [last, december, first]
      push_cast
      omega

theorem next_iterate (valid : date.Valid) (n : ℕ) :
    (Date.next^[n] date).Valid ∧ (Date.next^[n] date).dayNumber = date.dayNumber + n := by
  induction n with
  | zero => exact ⟨valid, by simp⟩
  | succ n ih =>
    rw [Function.iterate_succ_apply']
    refine ⟨ih.1.next, ?_⟩
    rw [dayNumber_next ih.1, ih.2]
    push_cast
    omega

/-! ### The order of the dates -/

/-- The day of the year, in its month and in its year. -/
theorem Date.Valid.bounds (valid : date.Valid) :
    monthStart date.year date.month < monthStart date.year date.month + date.day ∧
    monthStart date.year date.month + date.day ≤ monthStart date.year (date.month + 1) ∧
    monthStart date.year (date.month + 1) ≤ monthStart date.year 13 := by
  refine ⟨Nat.lt_add_of_pos_right valid.day_pos, ?_, monthStart_mono (Nat.succ_le_succ valid.month_le)⟩
  exact Nat.add_le_add_left valid.day_le _

theorem dayNumber_strictMono (valid : first.Valid) (valid' : second.Valid) (before : first.Before second) :
    first.dayNumber < second.dayNumber := by
  obtain ⟨_, upper, whole⟩ := valid.bounds
  obtain ⟨lower', _, _⟩ := valid'.bounds
  unfold Date.dayNumber
  rcases before with year | ⟨year, month | ⟨month, day⟩⟩
  · have start := yearStart_mono (Int.add_one_le_iff.mpr year)
    have length := monthStart_year first.year
    omega
  · have start : monthStart first.year (first.month + 1) ≤ monthStart first.year second.month :=
      monthStart_mono month
    rw [← year] at lower' ⊢
    omega
  · rw [← year, ← month]
    omega

theorem Date.trichotomy (first second : Date) : first.Before second ∨ first = second ∨ second.Before first := by
  obtain ⟨y, m, d⟩ := first
  obtain ⟨y', m', d'⟩ := second
  unfold Date.Before
  rw [Date.mk.injEq]
  dsimp only
  omega

theorem dayNumber_injective (valid : first.Valid) (valid' : second.Valid)
    (same : first.dayNumber = second.dayNumber) : first = second := by
  rcases Date.trichotomy first second with before | eq | before
  · exact absurd same (Int.ne_of_lt (dayNumber_strictMono valid valid' before))
  · exact eq
  · exact absurd same.symm (Int.ne_of_lt (dayNumber_strictMono valid' valid before))

/-- The numbers of two dates differ by the days between them. -/
theorem apart_iff (valid : first.Valid) (valid' : second.Valid) :
    Apart first second days ↔ days = second.dayNumber - first.dayNumber := by
  constructor
  · rintro (⟨n, rfl, arrives⟩ | ⟨n, rfl, arrives⟩)
    · have count := (next_iterate valid n).2
      rw [arrives] at count
      omega
    · have count := (next_iterate valid' n).2
      rw [arrives] at count
      omega
  · rintro rfl
    rcases Int.le_total first.dayNumber second.dayNumber with le | le
    · obtain ⟨n, gap⟩ := Int.eq_ofNat_of_zero_le (Int.sub_nonneg_of_le le)
      obtain ⟨valid₁, count⟩ := next_iterate valid n
      exact .inl ⟨n, gap, dayNumber_injective valid₁ valid' (by omega)⟩
    · obtain ⟨n, gap⟩ := Int.eq_ofNat_of_zero_le (Int.sub_nonneg_of_le le)
      obtain ⟨valid₁, count⟩ := next_iterate valid' n
      exact .inr ⟨n, by omega, dayNumber_injective valid₁ valid (by omega)⟩

end Lib.Calendar
