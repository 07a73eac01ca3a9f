import N8n.Library.Calendar
import N8n.Library.Recurrence
import N8n.Values

/-!
# The schedule trigger

A cron expression fires more often than an interval of several days, weeks or months asks for. What
is too often is left out by `recurrenceCheck`, which remembers a number of the last execution.
-/

namespace N8n

open Numbering

inductive ScheduleInterval
  | cronExpression (expression : String)
  | seconds (secondsInterval : ℕ)
  | minutes (minutesInterval : ℕ)
  | hours (hoursInterval : ℕ)
  | days (daysInterval : ℕ)
  | weeks (weeksInterval : ℕ) (triggerAtDay : List ℕ)
  | months (monthsInterval : ℕ)

inductive TypeInterval
  | hours
  | days
  | weeks
  | months

inductive RecurrenceRule
  | inactive
  | activated (index intervalSize : ℕ) (typeInterval : TypeInterval)

structure IntervalError where
  message : String := "Invalid interval"
  itemIndex : ℕ
  description : String

/-- A check of an interval. Without an upper bound only the lower one is checked. -/
def checkInterval (itemIndex : ℕ) (size : ℕ) (most : Option ℕ) (description : String) :
    Except IntervalError Unit :=
  if most.any (· < size) || size < 1 then .error { itemIndex, description } else .ok ()

/-- Weeks are not checked. -/
def validateInterval (itemIndex : ℕ) : ScheduleInterval → Except IntervalError Unit
  | .cronExpression _ => .ok ()
  | .seconds size => checkInterval itemIndex size (some 59) "Seconds must be in range 1-59"
  | .minutes size => checkInterval itemIndex size (some 59) "Minutes must be in range 1-59"
  | .hours size => checkInterval itemIndex size (some 23) "Hours must be in range 1-23"
  | .days size => checkInterval itemIndex size (some 31) "Days must be in range 1-31"
  | .weeks _ _ => .ok ()
  | .months size => checkInterval itemIndex size none "Months must be larger than 0"

def activatedUnlessOne (index size : ℕ) (typeInterval : TypeInterval) : RecurrenceRule :=
  if size ≠ 1 then .activated index size typeInterval else .inactive

def intervalToRecurrence (interval : ScheduleInterval) (index : ℕ) : RecurrenceRule :=
  match interval with
  | .hours size => activatedUnlessOne index size .hours
  | .days size => activatedUnlessOne index size .days
  | .weeks size _ => activatedUnlessOne index size .weeks
  | .months size => activatedUnlessOne index size .months
  | _ => .inactive

/-- What is read of the present time. -/
structure Moment where
  hour : ℕ
  dayOfYear : ℕ
  week : ℕ
  month : ℕ

/-- If it is time to execute, and the numbers of the last executions afterwards. -/
def recurrenceCheck (recurrence : RecurrenceRule) (recurrenceRules : List (Option ℕ))
    (momentTz : Moment) : Bool × List (Option ℕ) :=
  match recurrence with
  | .inactive => (true, recurrenceRules)
  | .activated index intervalSize typeInterval =>
    if intervalSize = 0 then (false, recurrenceRules)
    else
      let lastExecution := recurrenceRules.getD index none
      match typeInterval with
      | .hours =>
        let hour := momentTz.hour
        if lastExecution.all fun last => hour = (intervalSize + last) % 24 then
          (true, setAt recurrenceRules index none (some hour))
        else (false, recurrenceRules)
      | .days =>
        let dayOfYear := momentTz.dayOfYear
        if lastExecution.all fun last => dayOfYear = (intervalSize + last) % 365 then
          (true, setAt recurrenceRules index none (some dayOfYear))
        else (false, recurrenceRules)
      | .weeks =>
        let week := momentTz.week
        if lastExecution.all fun last => week = (intervalSize + last) % 52 ∨ week = last then
          (true, setAt recurrenceRules index none (some week))
        else (false, recurrenceRules)
      | .months =>
        let month := momentTz.month
        if lastExecution.all fun last => month = (intervalSize + last) % 12 then
          (true, setAt recurrenceRules index none (some month))
        else (false, recurrenceRules)

/-! ## Runs -/

/-- An hour of a day, which is counted from the beginning of the calendar. -/
structure Time where
  day : ℕ
  hour : ℕ

/-- Each check reads the moment of an occurrence. -/
def rulesAt (recurrence : RecurrenceRule) (recurrenceRules : List (Option ℕ))
    (moments : ℕ → Moment) : ℕ → List (Option ℕ)
  | 0 => recurrenceRules
  | j + 1 =>
    (recurrenceCheck recurrence (rulesAt recurrence recurrenceRules moments j) (moments j)).2

def acceptedAt (recurrence : RecurrenceRule) (recurrenceRules : List (Option ℕ))
    (moments : ℕ → Moment) (j : ℕ) : Bool :=
  (recurrenceCheck recurrence (rulesAt recurrence recurrenceRules moments j) (moments j)).1

/-- No weekday selected stands for all. -/
def isTriggerDay (triggerAtDay : List ℕ) (day : ℕ) : Prop :=
  triggerAtDay = [] ∨ weekday day ∈ triggerAtDay

/-- The occurrence of an interval that comes after another. -/
def NextOccurrence : ScheduleInterval → Time → Time → Prop
  | .hours size, time, next =>
    (time.hour + size < 24 ∧ next.day = time.day ∧ next.hour = time.hour + size) ∨
      (24 ≤ time.hour + size ∧ next.day = time.day + 1 ∧ next.hour = 0)
  | .days _, time, next => next.day = time.day + 1
  | .weeks _ triggerAtDay, time, next =>
    time.day < next.day ∧ isTriggerDay triggerAtDay next.day ∧
      ∀ day, time.day < day → day < next.day → ¬ isTriggerDay triggerAtDay day
  | .months _, time, next => monthIndex next.day = monthIndex time.day + 1
  | _, _, _ => False

/-- At which times an interval occurs. -/
def Occurs : ScheduleInterval → Time → Prop
  | .hours size, time => size ∣ time.hour ∧ time.hour < 24
  | .weeks _ triggerAtDay, time => isTriggerDay triggerAtDay time.day
  | _, _ => True

structure Occurrences (interval : ScheduleInterval) (times : ℕ → Time) : Prop where
  first : Occurs interval (times 0)
  next : ∀ j, NextOccurrence interval (times j) (times (j + 1))

/-- What is read is what the calendar says. The weeks begin on Sundays. -/
structure ReadsCalendar (moment : Time → Moment) : Prop where
  hour : ∀ time, (moment time).hour = time.hour
  dayOfYear : ∀ time, (moment time).dayOfYear = dayOfYear time.day
  week : ∀ time, (moment time).week = weekOfYear (weekIndex time.day)
  month : ∀ time, (moment time).month = month time.day

end N8n
