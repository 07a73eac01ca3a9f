import N8n.Schedule

/-!
# Kept intervals

Days and weeks are compared by their numbers in the year, as if each year had 365 days or 52 weeks.
The interval is kept until an execution whose next one lies behind a year that is longer, or on the
day or in the week that the remainder skips. Hours are compared by the clock, which begins again
each day.
-/

namespace N8n

open Numbering Recurrence

/-! ## What it is for -/

/-- The first occurrence is accepted, then exactly those an interval after the last accepted one, up
to the time of `K` intervals. Of hours only one in 24 has to be accepted. -/
def KeepsInterval (moment : Time → Moment) (interval : ScheduleInterval) (index : ℕ)
    (recurrenceRules : List (Option ℕ)) (times : ℕ → Time) (K : ℕ) : Prop :=
  let accepted := acceptedAt (intervalToRecurrence interval index) recurrenceRules
    fun j => moment (times j)
  let keeps (size : ℕ) (unit : ℕ → ℕ) (again : Prop) : Prop :=
    ∀ j, unit j ≤ unit 0 + K * size → (accepted j ↔ Due accepted unit size again j)
  match interval with
  | .hours _ => ∀ j, 0 < j → ∃ i < 24, accepted (j + i)
  | .days size => keeps size (fun j => (times j).day) False
  | .weeks size _ => keeps size (fun j => weekIndex (times j).day) True
  | .months size => keeps size (fun j => monthIndex (times j).day) False
  | _ => True

/-- The next execution is in the same year before its 365th day, or behind a year of 365 days and
not on its last day. -/
def DaysKept (size day : ℕ) : Prop :=
  dayOfYear day + size < 365 ∨ 365 < dayOfYear day + size ∧ ¬ isLeapYear (year day)

/-- The same for weeks, with one exception, where the week after the next 52 has the number of the
last one and no week before has the remainder. -/
def WeeksKept (size week : ℕ) : Prop :=
  (size ≤ 52 ∧ (weekOfYear week + size < 52 ∨
      52 < weekOfYear week + size ∧ weeksInYear (weekYear week) = 52)) ∨
    size = 53 ∧ weeksInYear (weekYear week) = 53 ∧ weekOfYear week = 51

/-- When the executions that come after `time` keep the interval. -/
def KeptFrom (interval : ScheduleInterval) (time : Time) (K : ℕ) : Prop :=
  match interval with
  | .hours size => size ∣ 24
  | .days size => ∀ k < K, DaysKept size (time.day + k * size)
  | .weeks size _ => ∀ k < K, WeeksKept size (weekIndex time.day + k * size)
  | .months size => ∀ k < K, size ≤ 12
  | _ => True

def ScheduleInterval.size : ScheduleInterval → ℕ
  | .cronExpression _ => 0
  | .seconds size => size
  | .minutes size => size
  | .hours size => size
  | .days size => size
  | .weeks size _ => size
  | .months size => size

/-! ## The check -/

section Check

/-- The number that is remembered. -/
def recurrenceKey : TypeInterval → Moment → ℕ
  | .hours, momentTz => momentTz.hour
  | .days, momentTz => momentTz.dayOfYear
  | .weeks, momentTz => momentTz.week
  | .months, momentTz => momentTz.month

def firesAfter (size : ℕ) : TypeInterval → ℕ → ℕ → Bool
  | .hours, last, key => key = (size + last) % 24
  | .days, last, key => key = (size + last) % 365
  | .weeks, last, key => key = (size + last) % 52 ∨ key = last
  | .months, last, key => key = (size + last) % 12

variable {index size : ℕ} {typeInterval : TypeInterval}

theorem recurrenceCheck_activated (hsize : size ≠ 0) (recurrenceRules : List (Option ℕ))
    (momentTz : Moment) :
    recurrenceCheck (.activated index size typeInterval) recurrenceRules momentTz =
      if accepts (firesAfter size typeInterval) (recurrenceRules.getD index none)
          (recurrenceKey typeInterval momentTz) then
        (true, setAt recurrenceRules index none (some (recurrenceKey typeInterval momentTz)))
      else (false, recurrenceRules) := by
  rw [recurrenceCheck, if_neg hsize]
  cases typeInterval <;> cases recurrenceRules.getD index none <;> rfl

variable {recurrenceRules : List (Option ℕ)} {moments : ℕ → Moment}

theorem rulesAt_getD (hsize : size ≠ 0) (hfresh : recurrenceRules.getD index none = none) :
    ∀ j, (rulesAt (.activated index size typeInterval) recurrenceRules moments j).getD index none =
      stateAt (firesAfter size typeInterval) (fun j => recurrenceKey typeInterval (moments j)) j
  | 0 => hfresh
  | j + 1 => by
    have ih := rulesAt_getD hsize hfresh j
    rw [rulesAt, recurrenceCheck_activated hsize, stateAt, ih]
    split
    · rw [getD_setAt, if_pos rfl]
    · exact ih

theorem acceptedAt_eq (hsize : size ≠ 0) (hfresh : recurrenceRules.getD index none = none) :
    acceptedAt (.activated index size typeInterval) recurrenceRules moments =
      acceptsAt (firesAfter size typeInterval) fun j => recurrenceKey typeInterval (moments j) := by
  funext j
  rw [acceptedAt, recurrenceCheck_activated hsize, rulesAt_getD hsize hfresh, acceptsAt]
  cases accepts (firesAfter size typeInterval) _ _ <;> rfl

end Check

/-! ## Days -/

theorem daysKept_iff {size : ℕ} (hsize : 0 < size) (hsize' : size ≤ 31) (day : ℕ) :
    (∀ i, 0 < i → i ≤ size →
      (firesAfter size .days (dayOfYear day) (dayOfYear (day + i)) ↔ i = size)) ↔
      DaysKept size day := by
  have hpos : 0 < dayOfYear day := Nat.succ_pos _
  have hle := dayOfYear_le day
  have hadd (i : ℕ) (hi : i ≤ size) := dayOfYear_add day (show i ≤ 365 by omega)
  have hfires (last key : ℕ) : firesAfter size .days last key ↔ key = (size + last) % 365 :=
    decide_eq_true_iff
  simp only [hfires]
  unfold DaysKept
  by_cases hleap : isLeapYear (year day)
  · simp only [daysInYear_eq, hleap, if_true] at hle hadd
    simp only [hleap, not_true_eq_false, and_false, or_false]
    constructor
    · intro hkept
      have hlast := (hkept size hsize le_rfl).2 rfl
      rw [hadd size le_rfl] at hlast
      split_ifs at hlast <;> omega
    · intro hkept i hi hle'
      rw [hadd i hle']
      split_ifs <;> omega
  · simp only [daysInYear_eq, hleap, Bool.false_eq_true, if_false] at hle hadd
    simp only [hleap, Bool.false_eq_true, not_false_eq_true, and_true]
    constructor
    · intro hkept
      have hlast := (hkept size hsize le_rfl).2 rfl
      rw [hadd size le_rfl] at hlast
      split_ifs at hlast <;> omega
    · intro hkept i hi hle'
      rw [hadd i hle']
      split_ifs <;> omega

/-! ## Weeks -/

theorem weeksKept_iff {size : ℕ} (hsize : 0 < size) (week : ℕ) :
    (∀ i, 0 < i → i ≤ size →
      (firesAfter size .weeks (weekOfYear week) (weekOfYear (week + i)) ↔ i = size)) ↔
      WeeksKept size week := by
  have hpos : 0 < weekOfYear week := Nat.succ_pos _
  have hle := weekOfYear_le week
  have hlength := weeksInYear_eq (weekYear week)
  have hfires (last key : ℕ) :
      firesAfter size .weeks last key ↔ key = (size + last) % 52 ∨ key = last :=
    decide_eq_true_iff
  simp only [hfires]
  unfold WeeksKept
  constructor
  · intro hkept
    have hlast := (hkept size hsize le_rfl).2 rfl
    by_cases hshort : size ≤ 52
    · refine Or.inl ⟨hshort, ?_⟩
      rw [weekOfYear_add (by omega)] at hlast
      split_ifs at hlast <;> omega
    · have hsame : weeksInYear (weekYear week) = 53 := by
        refine hlength.resolve_left fun hyear => ?_
        have := (hkept 52 (by omega) (by omega)).1
          (Or.inr (by rw [weekOfYear_add (by omega)]; split_ifs <;> omega))
        omega
      by_cases hend : weekOfYear week = 53
      · -- The next week with this number, or the one with the remainder, is too early.
        have hearly (i : ℕ) (hi : 0 < i) (hlt : i < size) : weekOfYear (week + i) ≠ 53 := by
          intro heq
          have := (hkept i hi hlt.le).1 (Or.inr (heq.trans hend.symm))
          omega
        have hremainder (i : ℕ) (hi : 0 < i) (hlt : i ≤ 52) : i ≠ (size + 53) % 52 := by
          intro heq
          have := (hkept i hi (by omega)).1
            (Or.inl (by rw [weekOfYear_add (by omega), if_neg (by omega)]; omega))
          omega
        have hzero : (size + 53) % 52 = 0 := by
          by_contra hne
          exact hremainder _ (Nat.pos_of_ne_zero hne) (by omega) rfl
        have hlast' : weekOfYear (week + size) = 53 := by
          have : 0 < weekOfYear (week + size) := Nat.succ_pos _
          omega
        obtain ⟨i, hi, hlt, hagain⟩ := exists_weekOfYear_eq hend hlast' hsize (by omega)
        exact absurd hagain (hearly i hi hlt)
      · have h53 := (hkept 53 (by omega) (by omega)).1
          (Or.inr (by rw [weekOfYear_add (by omega)]; split_ifs <;> omega))
        refine Or.inr ⟨h53.symm, hsame, ?_⟩
        by_contra hnot
        have h1 := hkept 1 (by omega) (by omega)
        have h2 := hkept 2 (by omega) (by omega)
        rw [weekOfYear_add (by omega)] at h1 h2
        split_ifs at h1 h2 <;> omega
  · rintro (⟨hshort, hkept⟩ | ⟨rfl, hlong, hweek⟩) i hi hle' <;>
      rw [weekOfYear_add (by omega)] <;> split_ifs <;> omega

/-- A selected weekday comes again after a week. -/
theorem advances_weekIndex {size : ℕ} {triggerAtDay : List ℕ} {times : ℕ → Time}
    (h : Occurrences (.weeks size triggerAtDay) times) :
    Advances (fun j => weekIndex (times j).day) True := by
  have hselected (j : ℕ) : isTriggerDay triggerAtDay (times j).day := by
    cases j with
    | zero => exact h.first
    | succ j => exact (h.next j).2.1
  have hweek (j : ℕ) : (times (j + 1)).day ≤ (times j).day + 7 := by
    by_contra hlater
    refine (h.next j).2.2 ((times j).day + 7) (by omega) (by omega) ?_
    have hsame : weekday ((times j).day + 7) = weekday (times j).day := by
      unfold weekday
      omega
    rw [isTriggerDay, hsame]
    exact hselected j
  have hday (j : ℕ) : j ≤ (times j).day := by
    induction j with
    | zero => exact Nat.zero_le _
    | succ j ih => exact ih.trans_lt (h.next j).1
  refine .of_step (fun j => ?_) fun u => ⟨7 * u, ?_⟩
  · have hlt := (h.next j).1
    have hle := hweek j
    simp only [weekIndex, true_and]
    omega
  · have hle := hday (7 * u)
    simp only [weekIndex]
    omega

/-! ## Months -/

theorem monthsKept_iff {size : ℕ} (hsize : 0 < size) (index : ℕ) :
    (∀ i, 0 < i → i ≤ size →
      (firesAfter size .months (index % 12) ((index + i) % 12) ↔ i = size)) ↔ size ≤ 12 := by
  have hfires (last key : ℕ) : firesAfter size .months last key ↔ key = (size + last) % 12 :=
    decide_eq_true_iff
  simp only [hfires]
  constructor
  · intro hkept
    by_contra hnot
    have := (hkept (size - 12) (by omega) (by omega)).1 (by omega)
    omega
  · intro hkept i hi hle
    omega

theorem keepsMonths_iff {size : ℕ} (hsize : 0 < size) {unit : ℕ → ℕ}
    (hadvances : Advances unit False) (K : ℕ) :
    (∀ j, unit j ≤ unit 0 + K * size →
      (acceptsAt (firesAfter size .months) (fun j => unit j % 12) j ↔
        Due (acceptsAt (firesAfter size .months) fun j => unit j % 12) unit size False j)) ↔
    ∀ k < K, size ≤ 12 := by
  rw [kept_iff (· % 12) hadvances hsize (fun _ => rfl) (fun h => False.elim h)]
  exact forall₂_congr fun k _ => monthsKept_iff hsize (unit 0 + k * size)

theorem monthIndex_mod (day : ℕ) : monthIndex day % 12 = month day := by
  rw [monthIndex, Nat.mul_add_mod, Nat.mod_eq_of_lt (month_lt day)]

/-! ## Hours -/

section Hours

variable {size : ℕ} {times : ℕ → Time} (h : Occurrences (.hours size) times)

include h

theorem dvd_hour : ∀ j, size ∣ (times j).hour ∧ (times j).hour < 24
  | 0 => h.first
  | j + 1 => by
    have ih := dvd_hour j
    rcases h.next j with ⟨hlt, -, hhour⟩ | ⟨-, -, hhour⟩ <;> rw [hhour]
    · exact ⟨(Nat.dvd_add_self_right).2 ih.1, hlt⟩
    · exact ⟨Nat.dvd_zero size, by decide⟩

theorem accepts_of_dvd (hdvd : size ∣ 24) :
    ∀ j, acceptsAt (firesAfter size .hours) (fun j => (times j).hour) j
  | 0 => rfl
  | j + 1 => by
    have hlast := IsLast.succ_of_accepted (accepts_of_dvd hdvd j)
    rw [hlast.acceptsAt_eq, firesAfter, decide_eq_true_iff]
    obtain ⟨hhour, hlt⟩ := dvd_hour h j
    rcases h.next j with ⟨hnext, -, heq⟩ | ⟨hnext, -, heq⟩ <;> rw [heq]
    · rw [Nat.mod_eq_of_lt (by omega), Nat.add_comm]
    · have hle : (times j).hour + size ≤ 24 := by
        obtain ⟨a, ha⟩ := hhour
        obtain ⟨b, hb⟩ := hdvd
        rw [ha] at hlt ⊢
        rw [hb] at hlt
        rw [hb, ← Nat.mul_succ]
        exact Nat.mul_le_mul_left size (Nat.lt_of_mul_lt_mul_left hlt)
      rw [show size + (times j).hour = 24 by omega]

theorem exists_last_hour (hsize : 0 < size) : ∀ left j, 24 ≤ (times j).hour + left →
    acceptsAt (firesAfter size .hours) (fun j => (times j).hour) j →
      ∃ j', acceptsAt (firesAfter size .hours) (fun j => (times j).hour) j' ∧
        24 ≤ (times j').hour + size
  | 0, j, hleft, _ => absurd (dvd_hour h j).2 (by omega)
  | left + 1, j, hleft, haccepts => by
    by_cases hlast : 24 ≤ (times j).hour + size
    · exact ⟨j, haccepts, hlast⟩
    · have hnext : (times (j + 1)).hour = (times j).hour + size := by
        rcases h.next j with ⟨-, -, hhour⟩ | ⟨hle, -, -⟩
        · exact hhour
        · omega
      refine exists_last_hour hsize left (j + 1) (by omega) ?_
      rw [(IsLast.succ_of_accepted haccepts).acceptsAt_eq, firesAfter, decide_eq_true_iff, hnext,
        Nat.mod_eq_of_lt (by omega), Nat.add_comm]

/-- The remainder after the last hour of a day is between the first two. -/
theorem isLast_of_not_dvd (hsize : size ≤ 23) (hdvd : ¬ size ∣ 24) {j : ℕ}
    (haccepts : acceptsAt (firesAfter size .hours) (fun j => (times j).hour) j)
    (hlast : 24 ≤ (times j).hour + size) :
    ∀ i, IsLast (acceptsAt (firesAfter size .hours) fun j => (times j).hour) (j + 1 + i) j
  | 0 => .succ_of_accepted haccepts
  | i + 1 => by
    have ih := isLast_of_not_dvd hsize hdvd haccepts hlast i
    refine ih.succ_of_not_accepted ?_
    rw [ih.acceptsAt_eq, firesAfter, decide_eq_false_iff_not]
    intro heq
    have hlt := (dvd_hour h j).2
    rw [show (size + (times j).hour) % 24 = size + (times j).hour - 24 by omega] at heq
    have hsum : size ∣ size + (times j).hour := Nat.dvd_add_self_left.2 (dvd_hour h j).1
    have hrest := Nat.dvd_sub hsum (heq ▸ (dvd_hour h (j + 1 + i)).1)
    rw [show size + (times j).hour - (size + (times j).hour - 24) = 24 by omega] at hrest
    exact hdvd hrest

theorem hoursKept_iff (hsize : 0 < size) (hsize' : size ≤ 23) :
    (∀ j, 0 < j → ∃ i < 24,
      acceptsAt (firesAfter size .hours) (fun j => (times j).hour) (j + i)) ↔ size ∣ 24 := by
  constructor
  · intro hkept
    by_contra hdvd
    obtain ⟨j, haccepts, hlast⟩ := exists_last_hour h hsize 24 0 (by omega) rfl
    obtain ⟨i, -, hagain⟩ := hkept (j + 1) (Nat.succ_pos j)
    have hstuck := isLast_of_not_dvd h hsize' hdvd haccepts hlast (i + 1)
    rw [hstuck.later (j + 1 + i) (by omega) (by omega)] at hagain
    cases hagain
  · exact fun hdvd j _ => ⟨0, by decide, accepts_of_dvd h hdvd j⟩

end Hours

/-! ## Intervals -/

theorem le_of_checkInterval {itemIndex size : ℕ} {most : Option ℕ} {description : String}
    (h : checkInterval itemIndex size most description = .ok ()) : ∀ m ∈ most, size ≤ m := by
  intro m hm
  unfold checkInterval at h
  split at h
  · cases h
  · rename_i hchecked
    rw [Option.mem_def.1 hm] at hchecked
    simp at hchecked
    omega

/-- Whether the executions keep an interval depends on their days and weeks as the calendar counts
them, on the size for months, and on whether it divides the day for hours. -/
theorem keepsInterval_iff {moment : Time → Moment} (hmoment : ReadsCalendar moment)
    {interval : ScheduleInterval} {itemIndex : ℕ}
    (hvalid : validateInterval itemIndex interval = .ok ())
    (hsize : 1 < interval.size) (index : ℕ) {recurrenceRules : List (Option ℕ)}
    (hfresh : recurrenceRules.getD index none = none) {times : ℕ → Time}
    (htimes : Occurrences interval times) (K : ℕ) :
    KeepsInterval moment interval index recurrenceRules times K ↔
      KeptFrom interval (times 0) K := by
  cases interval with
  | cronExpression expression => exact absurd hsize (Nat.not_lt_zero 1)
  | seconds size => exact Iff.rfl
  | minutes size => exact Iff.rfl
  | hours size =>
    have hle := le_of_checkInterval hvalid 23 rfl
    simp only [ScheduleInterval.size] at hsize
    simp only [KeepsInterval, KeptFrom, intervalToRecurrence, activatedUnlessOne,
      if_pos (show size ≠ 1 by omega), acceptedAt_eq (show size ≠ 0 by omega) hfresh, recurrenceKey,
      hmoment.hour]
    exact hoursKept_iff htimes (by omega) hle
  | days size =>
    have hle := le_of_checkInterval hvalid 31 rfl
    simp only [ScheduleInterval.size] at hsize
    simp only [KeepsInterval, KeptFrom, intervalToRecurrence, activatedUnlessOne,
      if_pos (show size ≠ 1 by omega), acceptedAt_eq (show size ≠ 0 by omega) hfresh, recurrenceKey,
      hmoment.dayOfYear]
    have hadvances : Advances (fun j => (times j).day) False := .of_succ htimes.next
    rw [kept_iff dayOfYear hadvances (by omega) (fun _ => rfl) (fun h => False.elim h)]
    exact forall₂_congr fun k _ => daysKept_iff (by omega) hle _
  | weeks size triggerAtDay =>
    simp only [ScheduleInterval.size] at hsize
    simp only [KeepsInterval, KeptFrom, intervalToRecurrence, activatedUnlessOne,
      if_pos (show size ≠ 1 by omega), acceptedAt_eq (show size ≠ 0 by omega) hfresh, recurrenceKey,
      hmoment.week]
    have hagain (week : ℕ) : firesAfter size .weeks (weekOfYear week) (weekOfYear week) :=
      decide_eq_true (Or.inr rfl)
    rw [kept_iff weekOfYear (advances_weekIndex htimes) (by omega) (fun _ => rfl)
      (fun _ => hagain)]
    exact forall₂_congr fun k _ => weeksKept_iff (by omega) _
  | months size =>
    simp only [ScheduleInterval.size] at hsize
    simp only [KeepsInterval, KeptFrom, intervalToRecurrence, activatedUnlessOne,
      if_pos (show size ≠ 1 by omega), acceptedAt_eq (show size ≠ 0 by omega) hfresh, recurrenceKey,
      hmoment.month]
    have hadvances : Advances (fun j => monthIndex (times j).day) False := .of_succ htimes.next
    simp only [← monthIndex_mod]
    exact keepsMonths_iff (by omega) hadvances K

/-- What a clock that goes by the calendar reads. -/
def calendarMoment (time : Time) : Moment where
  hour := time.hour
  dayOfYear := dayOfYear time.day
  week := weekOfYear (weekIndex time.day)
  month := month time.day

theorem readsCalendar_calendarMoment : ReadsCalendar calendarMoment :=
  ⟨fun _ => rfl, fun _ => rfl, fun _ => rfl, fun _ => rfl⟩

theorem dayOfYear_2025 {i : ℕ} (hi : i < 365) : dayOfYear (daysBefore 2025 + i) = i + 1 := by
  have hlength : daysBefore (2025 + 1) = daysBefore 2025 + 365 := rfl
  rw [dayOfYear_of_lt (Nat.le_add_right _ i) (by omega), Nat.add_sub_cancel_left]

/-- Every other day from the first one of 2025 on, until the end of the year. -/
theorem keepsInterval_2025 : KeepsInterval calendarMoment (.days 2) 0 []
    (fun j => ⟨daysBefore 2025 + j, 9⟩) 181 := by
  have hvalid : validateInterval 0 (.days 2) = .ok () := rfl
  have htimes : Occurrences (.days 2) fun j => ⟨daysBefore 2025 + j, 9⟩ := ⟨trivial, fun _ => rfl⟩
  refine (keepsInterval_iff readsCalendar_calendarMoment hvalid (by decide) 0 rfl htimes 181).2
    fun k hk => Or.inl ?_
  have hday := dayOfYear_2025 (show k * 2 < 365 by omega)
  simp only [Nat.add_zero]
  omega

/-- From 29 December 2025 on, the last day of the year is due, and not accepted. -/
theorem not_keepsInterval_december : ¬ KeepsInterval calendarMoment (.days 2) 0 []
    (fun j => ⟨daysBefore 2025 + (362 + j), 9⟩) 1 := by
  intro hkeeps
  have hkept := hkeeps 2 (by decide)
  rw [show intervalToRecurrence (.days 2) 0 = .activated 0 2 .days from rfl,
    acceptedAt_eq (by decide) rfl] at hkept
  have hkey (j : ℕ) (hj : j < 3) : dayOfYear (daysBefore 2025 + (362 + j)) = 363 + j := by
    rw [dayOfYear_2025 (by omega)]
    omega
  have hfirst := IsLast.succ_of_accepted (show acceptsAt (firesAfter 2 .days)
    (fun j => dayOfYear (daysBefore 2025 + (362 + j))) 0 from rfl)
  have hlast := hfirst.succ_of_not_accepted (by
    rw [hfirst.acceptsAt_eq, hkey 0 (by decide), hkey 1 (by decide)]
    rfl)
  have hdue := hkept.2 (hlast.due_iff.2 (Or.inl rfl))
  have haccepts := hlast.acceptsAt_eq
  rw [hkey 0 (by decide), hkey 2 (by decide)] at haccepts
  exact absurd (hdue.symm.trans haccepts) (by decide)

end N8n
