import Mathlib.Algebra.Ring.Int.Defs
import Mathlib.Data.List.Dedup
import N8n.InsightsCollection
import N8n.Library.DoWhile

/-!
# Compacting insights

Raw insights are compacted into hours, hours that are old into days, and days that are older into
weeks. A batch of rows is added up by the periods that they are in, the sums are added to the table
of periods, and the rows are deleted.
-/

namespace N8n

open InsightsCollectionService (InsightType)

inductive PeriodUnit
  | hour | day | week
  deriving DecidableEq, Repr

/-- `getPeriodStartExpr`, on seconds of universal time. Weeks start on Mondays, and the first of
January 1970 was a Thursday. -/
def periodStartExpr : PeriodUnit → ℤ → ℤ
  | .hour, time => time / 3600 * 3600
  | .day, time => time / 86400 * 86400
  | .week, time => ((time / 86400 + 3) / 7 * 7 - 3) * 86400

structure InsightsRawRow where
  metaId : ℕ
  type : InsightType
  value : ℤ
  timestamp : ℤ
  deriving DecidableEq, Repr

/-- The columns of `insights_by_period` that have a unique index. -/
structure PeriodKey where
  metaId : ℕ
  type : InsightType
  periodUnit : PeriodUnit
  periodStart : ℤ
  deriving DecidableEq, Repr

structure PeriodRow where
  id : ℕ
  value : ℤ
  deriving DecidableEq, Repr

/-- A row of the temporary table. -/
structure RowToCompact where
  id : ℕ
  metaId : ℕ
  type : InsightType
  periodStart : ℤ
  value : ℤ
  deriving DecidableEq, Repr

structure InsightsConfig where
  compactionBatchSize : ℕ := 500
  compactionHourlyToDailyThresholdDays : ℕ := 90
  compactionDailyToWeeklyThresholdDays : ℕ := 180
  deriving Repr

structure InsightsTables where
  insightsRaw : Dict ℕ InsightsRawRow := .empty
  insightsByPeriod : Dict PeriodKey PeriodRow := .empty
  nextRawId : ℕ := 0
  nextPeriodId : ℕ := 0

namespace InsightsTables

variable (t : InsightsTables)

def insertRaw (row : InsightsRawRow) : InsightsTables :=
  { t with
    insightsRaw := t.insightsRaw.set t.nextRawId row
    nextRawId := t.nextRawId + 1 }

/-! ## Batches -/

/-- The oldest rows; rows of the same time come in any order. A limit of zero is none. -/
def oldest (arrange : List RowToCompact → List RowToCompact) (compactionBatchSize : ℕ)
    (rows : List RowToCompact) : List RowToCompact :=
  let ordered := (arrange rows).mergeSort fun row row' => row.periodStart ≤ row'.periodStart
  if compactionBatchSize = 0 then ordered else ordered.take compactionBatchSize

def rawRow : ℕ × InsightsRawRow → RowToCompact
  | (id, row) => ⟨id, row.metaId, row.type, row.timestamp, row.value⟩

def periodRow : PeriodKey × PeriodRow → RowToCompact
  | (key, row) => ⟨row.id, key.metaId, key.type, key.periodStart, row.value⟩

def getRawInsightsBatchQuery (arrange : List RowToCompact → List RowToCompact)
    (compactionBatchSize : ℕ) : List RowToCompact :=
  oldest arrange compactionBatchSize (t.insightsRaw.entries.map rawRow)

/-- `today` is the start of the current day. -/
def periodFilterExpr (today : ℤ) (maxAgeInDays : ℕ) : ℤ := today - maxAgeInDays * 86400

def getPeriodInsightsBatchQuery (arrange : List RowToCompact → List RowToCompact)
    (periodUnitToCompactFrom : PeriodUnit) (compactionBatchSize : ℕ) (before : ℤ) :
    List RowToCompact :=
  oldest arrange compactionBatchSize ((t.insightsByPeriod.entries.filter fun (key, _) =>
    key.periodUnit = periodUnitToCompactFrom && key.periodStart < before).map periodRow)

/-! ## Compaction -/

def periodKey (periodUnit : PeriodUnit) (row : RowToCompact) : PeriodKey :=
  ⟨row.metaId, row.type, periodUnit, periodStartExpr periodUnit row.periodStart⟩

def valueAt (periodUnit : PeriodUnit) (rows : List RowToCompact) (key : PeriodKey) : ℤ :=
  ((rows.filter fun row => periodKey periodUnit row = key).map (·.value)).sum

def getAggregationQuery (periodUnit : PeriodUnit) (rows : List RowToCompact) :
    List (PeriodKey × ℤ) :=
  (rows.map (periodKey periodUnit)).dedup.map fun key => (key, valueAt periodUnit rows key)

/-- Adds the value to that of the row with the key, or inserts it. -/
def upsert (insight : PeriodKey × ℤ) : InsightsTables :=
  match t.insightsByPeriod.get? insight.1 with
  | some row =>
    { t with insightsByPeriod :=
        t.insightsByPeriod.set insight.1 { row with value := row.value + insight.2 } }
  | none =>
    { t with
      insightsByPeriod := t.insightsByPeriod.set insight.1 ⟨t.nextPeriodId, insight.2⟩
      nextPeriodId := t.nextPeriodId + 1 }

inductive SourceTable
  | insightsRaw | insightsByPeriod
  deriving DecidableEq, Repr

def deleteBatch : SourceTable → List ℕ → InsightsTables
  | .insightsRaw, ids => { t with insightsRaw := t.insightsRaw.filterKeys (· ∉ ids) }
  | .insightsByPeriod, ids => { t with insightsByPeriod := t.insightsByPeriod.filter (·.id ∉ ids) }

/-- The tables afterwards, and how many rows were compacted. -/
def compactSourceDataIntoInsightPeriod (sourceTable : SourceTable) (rows : List RowToCompact)
    (periodUnitToCompactInto : PeriodUnit) : InsightsTables × ℕ :=
  (((getAggregationQuery periodUnitToCompactInto rows).foldl upsert t).deleteBatch sourceTable
    (rows.map (·.id)), rows.length)

def compactRawToHour (arrange : List RowToCompact → List RowToCompact) (config : InsightsConfig) :
    InsightsTables × ℕ :=
  t.compactSourceDataIntoInsightPeriod .insightsRaw
    (t.getRawInsightsBatchQuery arrange config.compactionBatchSize) .hour

def compactHourToDay (arrange : List RowToCompact → List RowToCompact) (config : InsightsConfig)
    (today : ℤ) : InsightsTables × ℕ :=
  t.compactSourceDataIntoInsightPeriod .insightsByPeriod
    (t.getPeriodInsightsBatchQuery arrange .hour config.compactionBatchSize
      (periodFilterExpr today config.compactionHourlyToDailyThresholdDays)) .day

def compactDayToWeek (arrange : List RowToCompact → List RowToCompact) (config : InsightsConfig)
    (today : ℤ) : InsightsTables × ℕ :=
  t.compactSourceDataIntoInsightPeriod .insightsByPeriod
    (t.getPeriodInsightsBatchQuery arrange .day config.compactionBatchSize
      (periodFilterExpr today config.compactionDailyToWeeklyThresholdDays)) .week

/-- Compacts batches until one is not full. -/
def compactBatches (config : InsightsConfig) (compact : InsightsTables → InsightsTables × ℕ) :
    ℕ → InsightsTables → Option InsightsTables :=
  DoWhile.doWhile fun t => ((compact t).1, (compact t).2 = config.compactionBatchSize)

def compactInsights (arrange : List RowToCompact → List RowToCompact) (config : InsightsConfig)
    (today : ℤ) (fuel : ℕ) : Option InsightsTables := do
  let hours ← compactBatches config (compactRawToHour · arrange config) fuel t
  let days ← compactBatches config (compactHourToDay · arrange config today) fuel hours
  compactBatches config (compactDayToWeek · arrange config today) fuel days

def pruneOldData (thresholdDate : ℤ) : InsightsTables :=
  { t with insightsByPeriod := t.insightsByPeriod.filterKeys fun key =>
      !(key.periodStart ≤ thresholdDate) }

/-! ## Runs -/

inductive Event
  | insertRaw (row : InsightsRawRow)
  | compactRawToHour
  | compactHourToDay (today : ℤ)
  | compactDayToWeek (today : ℤ)
  | pruneOldData (thresholdDate : ℤ)
  deriving DecidableEq, Repr

def step (arrange : List RowToCompact → List RowToCompact) (config : InsightsConfig)
    (t : InsightsTables) : Event → InsightsTables
  | .insertRaw row => t.insertRaw row
  | .compactRawToHour => (t.compactRawToHour arrange config).1
  | .compactHourToDay today => (t.compactHourToDay arrange config today).1
  | .compactDayToWeek today => (t.compactDayToWeek arrange config today).1
  | .pruneOldData thresholdDate => t.pruneOldData thresholdDate

/-! ## Totals -/

/-- The insights that count. -/
structure Insights where
  metaId : ℕ
  type : InsightType
  /-- The start of the week that they are in. -/
  week : ℤ
  deriving DecidableEq, Repr

def Insights.worth (insights : Insights) (metaId : ℕ) (type : InsightType) (time value : ℤ) : ℤ :=
  if metaId = insights.metaId ∧ type = insights.type ∧
    periodStartExpr .week time = insights.week then value else 0

def Insights.worthOf (insights : Insights) (row : RowToCompact) : ℤ :=
  insights.worth row.metaId row.type row.periodStart row.value

/-- What the tables have of them, in any unit. -/
def total (insights : Insights) : ℤ :=
  (t.insightsRaw.entries.map fun entry => insights.worthOf (rawRow entry)).sum +
    (t.insightsByPeriod.entries.map fun entry => insights.worthOf (periodRow entry)).sum

/-- What was inserted of them. -/
def inserted (insights : Insights) (events : List Event) : ℤ :=
  (events.map fun
    | .insertRaw row => insights.worth row.metaId row.type row.timestamp row.value
    | _ => 0).sum

/-- The event deletes nothing of the week. -/
def Event.Spares (week : ℤ) : Event → Prop
  | .pruneOldData thresholdDate => thresholdDate < week
  | _ => True

/-- The ids are those that were given, each to one row, and each period starts where periods do. -/
structure Sound : Prop where
  rawIds : ∀ id, (t.insightsRaw.get? id).isSome → id < t.nextRawId
  periodIds : ∀ key row, t.insightsByPeriod.get? key = some row → row.id < t.nextPeriodId
  oneId : ∀ key row key' row', t.insightsByPeriod.get? key = some row →
    t.insightsByPeriod.get? key' = some row' → row.id = row'.id → key = key'
  starts : ∀ key row, t.insightsByPeriod.get? key = some row →
    periodStartExpr key.periodUnit key.periodStart = key.periodStart

/-- Nothing is left to compact. -/
structure Compacted (config : InsightsConfig) (today : ℤ) : Prop where
  raw : t.insightsRaw.entries = []
  hours : ∀ key row, t.insightsByPeriod.get? key = some row → key.periodUnit = .hour →
    periodFilterExpr today config.compactionHourlyToDailyThresholdDays ≤ key.periodStart
  days : ∀ key row, t.insightsByPeriod.get? key = some row → key.periodUnit = .day →
    periodFilterExpr today config.compactionDailyToWeeklyThresholdDays ≤ key.periodStart

end InsightsTables

end N8n
