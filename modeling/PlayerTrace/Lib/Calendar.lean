import Mathlib.Algebra.Order.Ring.Int
import Mathlib.Data.List.Basic
import Mathlib.Algebra.BigOperators.Group.List.Basic

/-!
# The proleptic Gregorian calendar

Years are integers, in both directions without end, and days are counted from the first day
of the year 0. What the calendar is, is said by the leap years and the lengths of the months;
the number of days before a year has a closed form (`Calendar.daysBeforeYear`) that follows
them (`Calendar.daysBeforeYear_succ`).

A `Calendar.Date` is a date that exists. Counting the days before it (`Date.days`) and finding
the date of a day (`Date.ofDays`) are inverse to each other, and the count respects the order
by year, month and day.
-/

namespace Calendar

/-! ### Years -/

/-- Every fourth year, but of the centuries only every fourth. -/
def isLeap (y : Int) : Bool := y % 4 == 0 && (y % 100 != 0 || y % 400 == 0)

def yearLength (y : Int) : Nat := if isLeap y then 366 else 365

/-- The days before the first of January of a year, from the year 0 on: the leap days before
it are counted by the multiples of 4, of 100 and of 400. -/
def daysBeforeYear (y : Int) : Int := 365 * y + (y + 3) / 4 - (y + 99) / 100 + (y + 399) / 400

@[simp] theorem daysBeforeYear_zero : daysBeforeYear 0 = 0 := rfl

theorem daysBeforeYear_succ (y : Int) :
    daysBeforeYear (y + 1) = daysBeforeYear y + yearLength y := by
  unfold daysBeforeYear yearLength isLeap
  simp only [Bool.and_eq_true, Bool.or_eq_true, beq_iff_eq, bne_iff_ne]
  split <;> omega

theorem daysBeforeYear_mono {y y' : Int} (h : y ≤ y') : daysBeforeYear y ≤ daysBeforeYear y' := by
  unfold daysBeforeYear
  omega

/-- The year a day is in: a guess by the mean length of a year, too small by one at most. -/
def yearOf (n : Int) : Int :=
  let y := (400 * n - 699) / 146097
  if daysBeforeYear (y + 1) ≤ n then y + 1 else y

theorem yearOf_spec (n : Int) :
    daysBeforeYear (yearOf n) ≤ n ∧ n < daysBeforeYear (yearOf n + 1) := by
  unfold yearOf daysBeforeYear
  dsimp only
  split <;> omega

/-! ### Months -/

/-- The days of a year before a day that is in it. -/
def dayIn (n : Int) : Nat := (n - daysBeforeYear (yearOf n)).toNat

def monthLengths (y : Int) : List Nat :=
  [31, if isLeap y then 29 else 28, 31, 30, 31, 30, 31, 31, 30, 31, 30, 31]

@[simp] theorem length_monthLengths (y : Int) : (monthLengths y).length = 12 := rfl

theorem sum_monthLengths (y : Int) : (monthLengths y).sum = yearLength y := by
  unfold monthLengths yearLength
  split <;> rfl

/-- Which of several stretches a position is in, and how far in it. -/
def locate : List Nat → Nat → Nat × Nat
  | [], n => (0, n)
  | l :: ls, n => if n < l then (0, n) else ((locate ls (n - l)).1 + 1, (locate ls (n - l)).2)

theorem locate_spec {ls : List Nat} {n : Nat} (h : n < ls.sum) :
    ∃ l, ls[(locate ls n).1]? = some l ∧ (locate ls n).2 < l ∧
      (ls.take (locate ls n).1).sum + (locate ls n).2 = n := by
  induction ls generalizing n with
  | nil => simp at h
  | cons l ls ih =>
    rw [List.sum_cons] at h
    rw [locate]
    split
    case isTrue hn => exact ⟨l, rfl, hn, by simp⟩
    case isFalse hn =>
      obtain ⟨l', hl', hlt, hsum⟩ := ih (n := n - l) (by omega)
      refine ⟨l', hl', hlt, ?_⟩
      rw [List.take_succ_cons, List.sum_cons]
      omega

theorem sum_take_add_le {ls : List Nat} {i j l : Nat} (hl : ls[i]? = some l) (hij : i < j) :
    (ls.take i).sum + l ≤ (ls.take j).sum := by
  have hsucc : ls.take (i + 1) = ls.take i ++ [l] := by
    rw [List.take_add_one, hl]
    rfl
  have hsplit := List.sum_take_add_sum_drop (ls.take j) (i + 1)
  rw [List.take_take, Nat.min_eq_left hij, hsucc, List.sum_append, List.sum_singleton] at hsplit
  omega

/-! ### Dates -/

/-- The number of days in a month, numbered from 1. -/
def monthLength (y : Int) (m : Nat) : Nat := (monthLengths y)[m - 1]?.getD 0

/-- A date that exists. -/
structure Date where
  year : Int
  month : Nat
  day : Nat
  one_le_month : 1 ≤ month
  month_le : month ≤ 12
  one_le_day : 1 ≤ day
  day_le : day ≤ monthLength year month

namespace Date

/-- The days before a date in its year. -/
def dayOfYear (d : Date) : Nat := ((monthLengths d.year).take (d.month - 1)).sum + (d.day - 1)

/-- The days before a date, from the year 0 on. -/
def days (d : Date) : Int := daysBeforeYear d.year + d.dayOfYear

theorem monthLength_eq (d : Date) :
    (monthLengths d.year)[d.month - 1]? = some (monthLength d.year d.month) := by
  have hlt : d.month - 1 < (monthLengths d.year).length := by
    have := d.month_le
    have := d.one_le_month
    rw [length_monthLengths]
    omega
  rw [monthLength, List.getElem?_eq_getElem hlt]
  rfl

/-- A date lies before the end of each month from its own on. -/
theorem dayOfYear_lt_sum (d : Date) {j : Nat} (hj : d.month ≤ j) :
    d.dayOfYear < ((monthLengths d.year).take j).sum := by
  have hle := sum_take_add_le d.monthLength_eq (show d.month - 1 < j by
    have := d.one_le_month
    omega)
  have := d.one_le_day
  have := d.day_le
  unfold dayOfYear
  omega

theorem dayOfYear_lt (d : Date) : d.dayOfYear < yearLength d.year := by
  have hlt := d.dayOfYear_lt_sum d.month_le
  rwa [List.take_of_length_le (by simp), sum_monthLengths] at hlt

/-- The order by year, month and day. -/
def Before (d d' : Date) : Prop :=
  d.year < d'.year ∨ d.year = d'.year ∧
    (d.month < d'.month ∨ d.month = d'.month ∧ d.day < d'.day)

theorem Before.days_lt {d d' : Date} (h : d.Before d') : d.days < d'.days := by
  rcases h with hy | ⟨hy, hm | ⟨hm, hd⟩⟩
  · have hlt := d.dayOfYear_lt
    have hnext := daysBeforeYear_succ d.year
    have hmono := daysBeforeYear_mono (show d.year + 1 ≤ d'.year from hy)
    unfold days
    omega
  · have hlt := d.dayOfYear_lt_sum (show d.month ≤ d'.month - 1 by omega)
    have hle : ((monthLengths d.year).take (d'.month - 1)).sum ≤ d'.dayOfYear := by
      rw [hy]
      exact Nat.le_add_right _ _
    unfold days
    rw [hy] at hle hlt ⊢
    omega
  · have := d.one_le_day
    unfold days dayOfYear
    rw [hy, hm]
    omega

theorem dayIn_lt (n : Int) : dayIn n < (monthLengths (yearOf n)).sum := by
  obtain ⟨hlo, hhi⟩ := yearOf_spec n
  rw [daysBeforeYear_succ] at hhi
  rw [sum_monthLengths, dayIn]
  omega

/-- The date of a day. -/
def ofDays (n : Int) : Date where
  year := yearOf n
  month := (locate (monthLengths (yearOf n)) (dayIn n)).1 + 1
  day := (locate (monthLengths (yearOf n)) (dayIn n)).2 + 1
  one_le_month := Nat.le_add_left ..
  month_le := by
    obtain ⟨l, hl, -⟩ := locate_spec (dayIn_lt n)
    exact (List.getElem?_eq_some_iff.mp hl).1
  one_le_day := Nat.le_add_left ..
  day_le := by
    obtain ⟨l, hl, hlt, -⟩ := locate_spec (dayIn_lt n)
    rw [monthLength, Nat.add_sub_cancel, hl]
    exact hlt

@[simp] theorem year_ofDays (n : Int) : (ofDays n).year = yearOf n := rfl

theorem days_ofDays (n : Int) : (ofDays n).days = n := by
  have hlo := (yearOf_spec n).1
  obtain ⟨l, -, -, hsum⟩ := locate_spec (dayIn_lt n)
  have hday : (ofDays n).dayOfYear = dayIn n := hsum
  rw [days, hday, year_ofDays, dayIn]
  omega

end Date

end Calendar
