import Mathlib.Data.Nat.Find
import Mathlib.Order.WellFounded

/-!
# Days and weeks of a year

Days and weeks are counted on and on, and also from one in each year. Day 0 is the first day of
the year 0 of the Gregorian calendar, a Saturday.
-/

namespace Numbering

/-! ## Numbers that begin again -/

section

variable (start : ℕ → ℕ)

/-- The last year that has begun. -/
def yearOf (t : ℕ) : ℕ := Nat.findGreatest (fun y => start y ≤ t) t

/-- The number in the year, from one on. -/
def ordinal (t : ℕ) : ℕ := t - start (yearOf start t) + 1

def lengthOf (y : ℕ) : ℕ := start (y + 1) - start y

end

section

variable {start : ℕ → ℕ} (hstart : StrictMono start) {y t n : ℕ}

include hstart

theorem yearOf_eq (h : start y ≤ t) (h' : t < start (y + 1)) : yearOf start t = y := by
  refine Nat.findGreatest_eq_iff.2 ⟨(hstart.le_apply).trans h, fun _ => h, fun {z} hz _ => ?_⟩
  exact not_le_of_gt (h'.trans_le (hstart.monotone hz))

omit hstart in
theorem start_yearOf_le (hzero : start 0 = 0) (t : ℕ) : start (yearOf start t) ≤ t :=
  Nat.findGreatest_spec (P := fun y => start y ≤ t) (Nat.zero_le t) (by omega)

theorem lt_start_yearOf_succ (t : ℕ) : t < start (yearOf start t + 1) := by
  by_contra h
  have hle : start (yearOf start t + 1) ≤ t := Nat.le_of_not_lt h
  have hgreatest := Nat.le_findGreatest (P := fun y => start y ≤ t)
    ((hstart.le_apply).trans hle) hle
  exact Nat.not_succ_le_self _ hgreatest

variable (hzero : start 0 = 0)

include hzero

theorem ordinal_le_lengthOf (t : ℕ) : ordinal start t ≤ lengthOf start (yearOf start t) := by
  have hle := start_yearOf_le hzero t
  have hlt := lt_start_yearOf_succ hstart t
  unfold ordinal lengthOf
  omega

/-- Later in the same year, or in the following one. -/
theorem ordinal_add (h : ordinal start t + n ≤
    lengthOf start (yearOf start t) + lengthOf start (yearOf start t + 1)) :
    ordinal start (t + n) =
    if ordinal start t + n ≤ lengthOf start (yearOf start t) then ordinal start t + n
    else ordinal start t + n - lengthOf start (yearOf start t) := by
  have hle := start_yearOf_le hzero t
  have hlt := lt_start_yearOf_succ hstart t
  have hnext := hstart (Nat.lt_succ_self (yearOf start t + 1))
  unfold ordinal lengthOf at h
  split_ifs with hsame
  · unfold ordinal lengthOf at hsame
    have hyear : yearOf start (t + n) = yearOf start t := yearOf_eq hstart (by omega) (by omega)
    unfold ordinal
    rw [hyear]
    omega
  · unfold ordinal lengthOf at hsame
    have hyear : yearOf start (t + n) = yearOf start t + 1 :=
      yearOf_eq hstart (by omega) (by omega)
    unfold ordinal lengthOf
    rw [hyear]
    omega

end

/-! ## The calendar -/

def isLeapYear (y : ℕ) : Bool := y % 4 = 0 ∧ (y % 100 ≠ 0 ∨ y % 400 = 0)

/-- How many days there are before a year. -/
def daysBefore (y : ℕ) : ℕ := 365 * y + (y + 3) / 4 - (y + 99) / 100 + (y + 399) / 400

def year : ℕ → ℕ := yearOf daysBefore

def dayOfYear : ℕ → ℕ := ordinal daysBefore

def daysInYear : ℕ → ℕ := lengthOf daysBefore

/-- From Sunday on, which is 0. -/
def weekday (day : ℕ) : ℕ := (day + 6) % 7

/-- The weeks, which begin on Sundays, counted on and on. -/
def weekIndex (day : ℕ) : ℕ := (day + 6) / 7

/-- The week of the first day of a year. -/
def firstWeek (y : ℕ) : ℕ := weekIndex (daysBefore y)

/-- The year of a week. Its first week is the one with its first day. -/
def weekYear : ℕ → ℕ := yearOf firstWeek

def weekOfYear : ℕ → ℕ := ordinal firstWeek

def weeksInYear : ℕ → ℕ := lengthOf firstWeek

/-- How many days of a year are before each month. -/
def daysBeforeMonth (y : ℕ) : List ℕ :=
  [0, 31, 59, 90, 120, 151, 181, 212, 243, 273, 304, 334].mapIdx fun month days =>
    if isLeapYear y ∧ 2 ≤ month then days + 1 else days

/-- From January on, which is 0. -/
def month (day : ℕ) : ℕ :=
  ((daysBeforeMonth (year day)).filter (· < dayOfYear day)).length - 1

/-- The months, counted on and on. -/
def monthIndex (day : ℕ) : ℕ := 12 * year day + month day

theorem daysBefore_succ (y : ℕ) :
    daysBefore (y + 1) = daysBefore y + if isLeapYear y then 366 else 365 := by
  have h4 : (y + 1 + 3) / 4 = (y + 3) / 4 + if y % 4 = 0 then 1 else 0 := by
    split_ifs <;> omega
  have h100 : (y + 1 + 99) / 100 = (y + 99) / 100 + if y % 100 = 0 then 1 else 0 := by
    split_ifs <;> omega
  have h400 : (y + 1 + 399) / 400 = (y + 399) / 400 + if y % 400 = 0 then 1 else 0 := by
    split_ifs <;> omega
  have hle : (y + 99) / 100 ≤ (y + 3) / 4 := by omega
  have hnot4 : y % 4 ≠ 0 → y % 100 ≠ 0 := by omega
  have hnot100 : y % 100 ≠ 0 → y % 400 ≠ 0 := by omega
  rw [daysBefore, daysBefore, h4, h100, h400]
  clear h4 h100 h400
  simp only [isLeapYear, decide_eq_true_eq]
  split_ifs <;> omega

theorem strictMono_daysBefore : StrictMono daysBefore :=
  strictMono_nat_of_lt_succ fun y => by
    rw [daysBefore_succ]
    split_ifs <;> omega

theorem daysBefore_zero : daysBefore 0 = 0 := rfl

theorem daysInYear_eq (y : ℕ) : daysInYear y = if isLeapYear y then 366 else 365 := by
  rw [daysInYear, lengthOf, daysBefore_succ, Nat.add_sub_cancel_left]

theorem dayOfYear_of_lt {y day : ℕ} (h : daysBefore y ≤ day) (h' : day < daysBefore (y + 1)) :
    dayOfYear day = day - daysBefore y + 1 := by
  rw [dayOfYear, ordinal, yearOf_eq strictMono_daysBefore h h']

theorem dayOfYear_le (day : ℕ) : dayOfYear day ≤ daysInYear (year day) :=
  ordinal_le_lengthOf strictMono_daysBefore daysBefore_zero day

theorem dayOfYear_add {i : ℕ} (day : ℕ) (hi : i ≤ 365) : dayOfYear (day + i) =
    if dayOfYear day + i ≤ daysInYear (year day) then dayOfYear day + i
    else dayOfYear day + i - daysInYear (year day) := by
  have hnext : 365 ≤ daysInYear (year day + 1) := by
    rw [daysInYear_eq]
    split_ifs <;> omega
  exact ordinal_add strictMono_daysBefore daysBefore_zero
    (Nat.add_le_add (dayOfYear_le day) (hi.trans hnext))

theorem firstWeek_succ (y : ℕ) :
    firstWeek (y + 1) = firstWeek y + 52 ∨ firstWeek (y + 1) = firstWeek y + 53 := by
  have h := daysBefore_succ y
  unfold firstWeek weekIndex
  split_ifs at h <;> omega

theorem strictMono_firstWeek : StrictMono firstWeek :=
  strictMono_nat_of_lt_succ fun y => by
    have h := firstWeek_succ y
    omega

theorem firstWeek_zero : firstWeek 0 = 0 := rfl

theorem weeksInYear_eq (y : ℕ) : weeksInYear y = 52 ∨ weeksInYear y = 53 := by
  have h := firstWeek_succ y
  unfold weeksInYear lengthOf
  omega

theorem weekOfYear_le (week : ℕ) : weekOfYear week ≤ weeksInYear (weekYear week) :=
  ordinal_le_lengthOf strictMono_firstWeek firstWeek_zero week

theorem weekOfYear_add {week i : ℕ} (h : weekOfYear week + i ≤ weeksInYear (weekYear week) + 52) :
    weekOfYear (week + i) =
      if weekOfYear week + i ≤ weeksInYear (weekYear week) then weekOfYear week + i
      else weekOfYear week + i - weeksInYear (weekYear week) := by
  have hnext : 52 ≤ weeksInYear (weekYear week + 1) := by
    have := weeksInYear_eq (weekYear week + 1)
    omega
  exact ordinal_add strictMono_firstWeek firstWeek_zero (h.trans (Nat.add_le_add_left hnext _))

/-- While the years have 52 weeks. -/
theorem firstWeek_add {y : ℕ} : ∀ k, (∀ y', y ≤ y' → y' < y + k → weeksInYear y' = 52) →
    firstWeek (y + k) = firstWeek y + 52 * k
  | 0, _ => rfl
  | k + 1, h => by
    have hlast := h (y + k) (by omega) (by omega)
    have hnext := firstWeek_succ (y + k)
    have ih := firstWeek_add k fun y' hle hlt => h y' hle (by omega)
    unfold weeksInYear lengthOf at hlast
    rw [← Nat.add_assoc]
    omega

theorem weekOfYear_last {y : ℕ} (h : weeksInYear y = 53) : weekOfYear (firstWeek y + 52) = 53 := by
  have hlt := strictMono_firstWeek (Nat.lt_succ_self y)
  unfold weeksInYear lengthOf at h
  have hyear : yearOf firstWeek (firstWeek y + 52) = y :=
    yearOf_eq strictMono_firstWeek (by omega) (by omega)
  rw [weekOfYear, ordinal, hyear]
  omega

theorem eq_firstWeek_add {week : ℕ} (h : weekOfYear week = 53) :
    weeksInYear (weekYear week) = 53 ∧ week = firstWeek (weekYear week) + 52 := by
  have hle := start_yearOf_le firstWeek_zero week
  have hweeks := weekOfYear_le week
  have hlength := weeksInYear_eq (weekYear week)
  unfold weekOfYear ordinal at h
  rw [weekOfYear, ordinal] at hweeks
  unfold weekYear at *
  omega

/-- From the 53rd week of a year on, the next one with that number is one more than some years of 52
weeks away. -/
theorem exists_weekOfYear_eq {week n : ℕ} (h : weekOfYear week = 53)
    (hnext : weekOfYear (week + n) = 53) (hpos : 0 < n) (hmod : n % 52 ≠ 1) :
    ∃ i, 0 < i ∧ i < n ∧ weekOfYear (week + i) = 53 := by
  obtain ⟨hlong, hweek⟩ := eq_firstWeek_add h
  obtain ⟨hlong', hweek'⟩ := eq_firstWeek_add hnext
  generalize weekYear week = y at *
  generalize weekYear (week + n) = y' at *
  have hlt : y < y' := strictMono_firstWeek.lt_iff_lt.1 (by omega)
  obtain ⟨k, rfl⟩ : ∃ k, y' = y + 1 + k := ⟨y' - (y + 1), by omega⟩
  by_contra hnone
  push Not at hnone
  have hshort : ∀ z, y + 1 ≤ z → z < y + 1 + k → weeksInYear z = 52 := by
    intro z hle hlt'
    refine (weeksInYear_eq z).resolve_right fun hz => ?_
    have hbefore := strictMono_firstWeek (show y < z by omega)
    have hafter := strictMono_firstWeek hlt'
    have hle' : week ≤ firstWeek z + 52 := by omega
    refine hnone (firstWeek z + 52 - week) (by omega) (by omega) ?_
    rw [Nat.add_sub_cancel' hle']
    exact weekOfYear_last hz
  have hyears := firstWeek_add k hshort
  unfold weeksInYear lengthOf at hlong
  have hfirst := strictMono_firstWeek (show y < y + 1 by omega)
  omega

theorem month_lt (day : ℕ) : month day < 12 := by
  have h : ((daysBeforeMonth (year day)).filter (· < dayOfYear day)).length ≤ 12 :=
    (List.length_filter_le _ _).trans (by simp [daysBeforeMonth])
  unfold month
  omega

end Numbering
