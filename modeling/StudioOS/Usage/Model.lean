import Mathlib.Algebra.Order.Ring.Nat
import Mathlib.Data.Nat.Log
import Mathlib.Data.String.Basic
import StudioOS.Budgets.Model
import StudioOS.Library.Tally

/-!
# Usage — the summary of the usage ledger

`summarize_usage` of `services/usage.py`: the database groups the entries in scope by the grouping
dimension, the currency and the collector, and the service folds its rows into one accumulator for
each key and these into the total.

A `Decimal` is a number of the smallest units of its column: tokens, 10⁻⁸ of a currency,
milliseconds. Days count from the day the clock readings count from.
-/

namespace StudioOS.Usage

open Authz
open Budgets (Measure CachedTokensScope microsecondsPerDay)

structure UsageProvenance where
  collector : String
  collectorVersion : Option String
  harness : Option String
  harnessVersion : Option String
  provider : Option String
  model : Option String
deriving DecidableEq

structure PricingRef where
  priceListId : String
  effectiveFrom : Timestamp
deriving DecidableEq

/-- `UsageMetrics`: a value is there unless its coverage is `unknown`, and a
cost comes with its currency. -/
structure UsageMetrics where
  tokensIn : Measure Nat
  tokensOut : Measure Nat
  tokensCached : Measure Nat
  cachedTokensScope : CachedTokensScope
  cost : Measure (Nat × String)
  duration : Measure Nat
deriving DecidableEq

/-- The block a correction replaces as a whole. -/
structure MeasuredBlock extends UsageMetrics where
  provenance : UsageProvenance
  periodStart : Timestamp
  periodEnd : Timestamp
  pricing : Option PricingRef
deriving DecidableEq

/-- The fields a correction leaves alone. -/
structure UsageIdentity where
  projectId : Uuid
  machineId : Uuid
  sourceEventId : String
  taskId : Option Uuid
  sessionId : Option Uuid
  taskLaunchId : Option Uuid
  aiWorkId : Option Uuid
deriving DecidableEq

/-- `UsageLedgerEntryModel`. -/
structure UsageEntry extends UsageIdentity, MeasuredBlock where
  version : Nat
deriving DecidableEq

/-! ## Accumulators -/

/-- A sum in the default context of `decimal`: 28 significant digits, half to
even. -/
def roundContext (n : Nat) : Nat :=
  if n < 10 ^ 28 then n
  else
    let unit := 10 ^ (Nat.log 10 n - 27)
    let kept := n / unit
    let rest := n % unit
    if unit < 2 * rest ∨ (unit = 2 * rest ∧ kept % 2 = 1) then (kept + 1) * unit else kept * unit

inductive UsageTotalStatus where
  | none
  | exact
  | estimated
  | partial_
  | unknown
  | mixedCurrency

/-- `UsageTokenTotal`, `UsageDurationTotal`. -/
structure UsageTotal where
  status : UsageTotalStatus
  knownSum : Option Nat
  measuredEntries : Nat
  estimatedEntries : Nat
  unknownEntries : Nat

/-- The four columns of one metric in a row of the summary query. -/
structure MetricColumns where
  knownSum : Option Nat
  measured : Nat
  estimated : Nat
  unknown : Nat

structure MetricAccumulator where
  knownSum : Nat := 0
  measured : Nat := 0
  estimated : Nat := 0
  unknown : Nat := 0

namespace MetricAccumulator

def add (self : MetricAccumulator) (columns : MetricColumns) : MetricAccumulator :=
  { knownSum :=
      match columns.knownSum with
      | some knownSum => roundContext (self.knownSum + knownSum)
      | none => self.knownSum
    measured := self.measured + columns.measured
    estimated := self.estimated + columns.estimated
    unknown := self.unknown + columns.unknown }

def merge (self other : MetricAccumulator) : MetricAccumulator :=
  self.add ⟨some other.knownSum, other.measured, other.estimated, other.unknown⟩

def known (self : MetricAccumulator) : Nat := self.measured + self.estimated

def status (self : MetricAccumulator) : UsageTotalStatus :=
  if self.known = 0 then (if self.unknown ≠ 0 then .unknown else .none)
  else if self.unknown ≠ 0 then .partial_
  else if self.estimated ≠ 0 then .estimated
  else .exact

/-- `tokens`, `duration`. -/
def total (self : MetricAccumulator) : UsageTotal :=
  { status := self.status
    knownSum := if self.known ≠ 0 then some self.knownSum else none
    measuredEntries := self.measured
    estimatedEntries := self.estimated
    unknownEntries := self.unknown }

end MetricAccumulator

/-- `_METRICS`. -/
inductive Metric where
  | tokensIn
  | tokensOut
  | tokensCached
  | totalTokens
  | cost
  | duration

/-- The value of the grouping dimension; the other fields stay `none`. -/
structure UsageGroupKey where
  taskId : Option Uuid := none
  taskTitle : Option String := none
  harness : Option String := none
  provider : Option String := none
  model : Option String := none
  day : Option Nat := none
deriving DecidableEq

structure UsageCurrencyAmount where
  currency : String
  knownSum : Nat
  entries : Nat

structure UsageCostTotal where
  status : UsageTotalStatus
  knownSum : Option Nat
  currency : Option String
  byCurrency : List UsageCurrencyAmount
  measuredEntries : Nat
  estimatedEntries : Nat
  unknownEntries : Nat

structure UsageSourceCount where
  collector : String
  entries : Nat

structure UsageAggregate where
  key : UsageGroupKey
  entries : Nat
  firstPeriodStart : Option Timestamp
  lastPeriodEnd : Option Timestamp
  tokensIn : UsageTotal
  tokensOut : UsageTotal
  tokensCached : UsageTotal
  totalTokens : UsageTotal
  cost : UsageCostTotal
  duration : UsageTotal
  sources : List UsageSourceCount

structure AggregateAccumulator where
  key : UsageGroupKey
  entries : Nat := 0
  firstPeriodStart : Option Timestamp := none
  lastPeriodEnd : Option Timestamp := none
  metrics : Metric → MetricAccumulator := fun _ => {}
  costByCurrency : List (String × MetricAccumulator) := []
  sources : List (String × Nat) := []

namespace AggregateAccumulator

def span (self : AggregateAccumulator) (start end_ : Option Timestamp) : AggregateAccumulator :=
  { self with
    firstPeriodStart :=
      match start with
      | none => self.firstPeriodStart
      | some start =>
        match self.firstPeriodStart with
        | none => some start
        | some first => if start < first then some start else some first
    lastPeriodEnd :=
      match end_ with
      | none => self.lastPeriodEnd
      | some end_ =>
        match self.lastPeriodEnd with
        | none => some end_
        | some last => if last < end_ then some end_ else some last }

def merge (self other : AggregateAccumulator) : AggregateAccumulator :=
  { self.span other.firstPeriodStart other.lastPeriodEnd with
    entries := self.entries + other.entries
    metrics := fun name => (self.metrics name).merge (other.metrics name)
    costByCurrency :=
      Tally.addAll (fun _ => {}) MetricAccumulator.merge self.costByCurrency other.costByCurrency
    sources := Tally.addAll (fun _ => 0)
      (fun count more => count + more) self.sources other.sources }

def cost (self : AggregateAccumulator) : UsageCostTotal :=
  let metric := self.metrics .cost
  let byCurrency := (self.costByCurrency.insertionSort fun a b => a.1 ≤ b.1).map
    fun (currency, amount) => ⟨currency, amount.knownSum, amount.known⟩
  if 1 < byCurrency.length then
    { status := .mixedCurrency
      knownSum := none
      currency := none
      byCurrency
      measuredEntries := metric.measured
      estimatedEntries := metric.estimated
      unknownEntries := metric.unknown }
  else
    let single := byCurrency.head?
    { status := metric.status
      knownSum := single.map (·.knownSum)
      currency := single.map (·.currency)
      byCurrency
      measuredEntries := metric.measured
      estimatedEntries := metric.estimated
      unknownEntries := metric.unknown }

def finalize (self : AggregateAccumulator) : UsageAggregate :=
  { key := self.key
    entries := self.entries
    firstPeriodStart := self.firstPeriodStart
    lastPeriodEnd := self.lastPeriodEnd
    tokensIn := (self.metrics .tokensIn).total
    tokensOut := (self.metrics .tokensOut).total
    tokensCached := (self.metrics .tokensCached).total
    totalTokens := (self.metrics .totalTokens).total
    cost := self.cost
    duration := (self.metrics .duration).total
    sources := (self.sources.insertionSort fun a b => a.1 ≤ b.1).map
      fun (collector, count) => ⟨collector, count⟩ }

end AggregateAccumulator

/-! ## The query -/

inductive UsageError where
  | http (error : HttpError)
  /-- `bigint out of range`, raised by the database. -/
  | bigintOutOfRange

/-- `+` on two `bigint` columns. -/
def bigintAdd (a b : Nat) : Except UsageError Nat :=
  if a + b < 2 ^ 63 then .ok (a + b) else .error .bigintOutOfRange

/-- Whether a measure has a value, and which. -/
inductive Coverage where
  | measured
  | estimated
  | unknown
deriving DecidableEq

def coverage {α : Type} : Measure α → Coverage
  | .unknown => .unknown
  | .measured _ => .measured
  | .estimated _ => .estimated

/-- The `total` column of `_total_tokens_columns`. The sum of the first two
columns is computed before the third is looked at. -/
def totalTokensColumn (entry : UsageMetrics) : Except UsageError (Option Nat) :=
  match entry.tokensIn.value?, entry.tokensOut.value? with
  | some tokensIn, some tokensOut => do
    let sum ← bigintAdd tokensIn tokensOut
    if entry.cachedTokensScope = .additionalToInput then
      match entry.tokensCached.value? with
      | some tokensCached => some <$> bigintAdd sum tokensCached
      | none => return none
    else return some sum
  | _, _ => return none

/-- The `estimated` column of `_total_tokens_columns`. -/
def totalEstimatedColumn (entry : UsageMetrics) : Bool :=
  coverage entry.tokensIn = .estimated || coverage entry.tokensOut = .estimated ||
    (entry.cachedTokensScope = .additionalToInput && coverage entry.tokensCached = .estimated)

/-- `sum` of a column: `NULL` over no value. -/
def sqlSum (column : List (Option Nat)) : Option Nat :=
  if column.filterMap id = [] then none else some (column.filterMap id).sum

/-- `sum` of a column and `_coverage_counts` of its coverage. -/
def measureColumns (measure : UsageEntry → Measure Nat) (entries : List UsageEntry) :
    MetricColumns :=
  { knownSum := sqlSum (entries.map fun entry => (measure entry).value?)
    measured := entries.countP fun entry => coverage (measure entry) = .measured
    estimated := entries.countP fun entry => coverage (measure entry) = .estimated
    unknown := entries.countP fun entry => coverage (measure entry) = .unknown }

/-- The columns of `total_tokens`, from its two computed columns. -/
def totalTokensColumns (entries : List UsageEntry) : Except UsageError MetricColumns := do
  let totals ← entries.mapM fun entry => do
    return (← totalTokensColumn entry.toUsageMetrics, totalEstimatedColumn entry.toUsageMetrics)
  return {
    knownSum := sqlSum (totals.map (·.1))
    measured := totals.countP fun (total, estimated) => total.isSome && !estimated
    estimated := totals.countP fun (total, estimated) => total.isSome && estimated
    unknown := totals.countP fun (total, _) => total.isNone }

def amount : Measure (Nat × String) → Measure Nat
  | .unknown => .unknown
  | .measured (cost, _) => .measured cost
  | .estimated (cost, _) => .estimated cost

def UsageEntry.costCurrency (entry : UsageEntry) : Option String :=
  entry.cost.value?.map Prod.snd

/-- `_summary_measures`, in the order of `_METRICS`. -/
def summaryMeasures (entries : List UsageEntry) : Except UsageError (Metric → MetricColumns) := do
  let totalTokens ← totalTokensColumns entries
  return fun
    | .tokensIn => measureColumns (·.tokensIn) entries
    | .tokensOut => measureColumns (·.tokensOut) entries
    | .tokensCached => measureColumns (·.tokensCached) entries
    | .totalTokens => totalTokens
    | .cost => measureColumns (fun entry => amount entry.cost) entries
    | .duration => measureColumns (·.duration) entries

inductive UsageGroupBy where
  | none
  | task
  | configuration
  | day
deriving DecidableEq

/-- The arguments of `summarize_usage`. -/
structure SummaryQuery where
  projectId : Uuid
  taskId : Option Uuid
  taskLaunchId : Option Uuid
  groupBy : UsageGroupBy
  since : Option Timestamp
  until_ : Option Timestamp
  maxGroups : Nat

/-- `_group_columns` of an entry; `titles` is the outer join on the tasks. -/
def groupKey (titles : Uuid → Option String) (groupBy : UsageGroupBy) (entry : UsageEntry) :
    UsageGroupKey :=
  match groupBy with
  | .none => {}
  | .task => { taskId := entry.taskId, taskTitle := entry.taskId.bind titles }
  | .configuration =>
    { harness := entry.provenance.harness
      provider := entry.provenance.provider
      model := entry.provenance.model }
  | .day => { day := some (entry.periodStart / microsecondsPerDay) }

/-- The `where` clauses of the query. -/
def SummaryQuery.selects (query : SummaryQuery) (entry : UsageEntry) : Bool :=
  entry.projectId = query.projectId &&
    query.taskId.all (fun taskId => entry.taskId = some taskId) &&
    query.taskLaunchId.all (fun taskLaunchId => entry.taskLaunchId = some taskLaunchId) &&
    query.since.all (fun since => since ≤ entry.periodStart) &&
    query.until_.all (fun until_ => entry.periodStart < until_)

def SummaryQuery.scope (query : SummaryQuery) (entries : List UsageEntry) : List UsageEntry :=
  entries.filter query.selects

/-- Entries the database returns as one row. -/
structure Part where
  key : UsageGroupKey
  currency : Option String
  collector : String
  entries : List UsageEntry

/-- The entries in scope, cut into parts with one value in every dimension.
The database makes one part for each value. -/
structure Partition (titles : Uuid → Option String) (query : SummaryQuery)
    (entries : List UsageEntry) (parts : List Part) : Prop where
  perm : (parts.flatMap (·.entries)).Perm (query.scope entries)
  nonempty : ∀ part ∈ parts, part.entries ≠ []
  key : ∀ part ∈ parts, ∀ entry ∈ part.entries, groupKey titles query.groupBy entry = part.key
  currency : ∀ part ∈ parts, ∀ entry ∈ part.entries, entry.costCurrency = part.currency
  collector : ∀ part ∈ parts, ∀ entry ∈ part.entries, entry.provenance.collector = part.collector

/-- The accumulator of one row of the query. -/
def partAccumulator (part : Part) : Except UsageError AggregateAccumulator := do
  let values ← summaryMeasures part.entries
  let empty : AggregateAccumulator := { key := part.key, entries := part.entries.length }
  let spanned := empty.span (part.entries.map (·.periodStart)).min?
    (part.entries.map (·.periodEnd)).max?
  let metrics := fun name => (spanned.metrics name).add (values name)
  return { spanned with
    metrics
    costByCurrency :=
      match part.currency with
      | none => []
      | some currency => [(currency, MetricAccumulator.merge {} (metrics .cost))]
    sources := [(part.collector, part.entries.length)] }

structure UsageSummary where
  query : SummaryQuery
  generatedAt : Timestamp
  total : UsageAggregate
  groups : List UsageAggregate
  truncated : Bool

/-- `_group_order` compared with `reverse=True`. -/
def groupOrder (a b : UsageGroupKey × AggregateAccumulator) : Prop :=
  let order := fun (item : UsageGroupKey × AggregateAccumulator) =>
    toLex (item.2.key.day.getD 0, item.2.lastPeriodEnd.getD 0)
  order b ≤ order a

instance : DecidableRel groupOrder := fun a b =>
  inferInstanceAs (Decidable (toLex (b.2.key.day.getD 0, b.2.lastPeriodEnd.getD 0) ≤
    toLex (a.2.key.day.getD 0, a.2.lastPeriodEnd.getD 0)))

/-- The fold of the rows into `by_key`. -/
def accumulators (parts : List Part) :
    Except UsageError (List (UsageGroupKey × AggregateAccumulator)) := do
  let rows ← parts.mapM fun part => do return (part.key, ← partAccumulator part)
  return Tally.addAll (fun key => { key }) AggregateAccumulator.merge [] rows

/-- `total`. -/
def totalAccumulator (byKey : List (UsageGroupKey × AggregateAccumulator)) : AggregateAccumulator :=
  (byKey.map Prod.snd).foldl AggregateAccumulator.merge { key := {} }

/-- Every group of a summary, also those it cuts. -/
def allGroups (byKey : List (UsageGroupKey × AggregateAccumulator)) : List UsageAggregate :=
  (byKey.insertionSort groupOrder).map fun item => item.2.finalize

/-- `summarize_usage`, over the rows that the database returns for `parts`. -/
def summarizeUsage (principal : Principal) (query : SummaryQuery) (now : Timestamp)
    (parts : List Part) : Except UsageError UsageSummary := do
  (ensureProjectAccess principal query.projectId "read").mapError .http
  if query.since.any fun since => query.until_.any fun until_ => until_ < since then
    throw (.http ⟨422, [("error_code", "invalid_usage_period")]⟩)
  let byKey ← accumulators parts
  let ordered := if query.groupBy = .none then [] else allGroups byKey
  return {
    query
    generatedAt := now
    total := (totalAccumulator byKey).finalize
    groups := ordered.take query.maxGroups
    truncated := query.maxGroups < ordered.length }

end StudioOS.Usage
