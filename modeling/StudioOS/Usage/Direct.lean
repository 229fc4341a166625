import Mathlib.Algebra.Order.BigOperators.Group.List
import StudioOS.Usage.Model

/-!
# Direct — usage summed entry by entry

What a summary is for: the aggregate of a list of entries, read off the
entries without accumulators, groups or parts.
-/

namespace StudioOS.Usage

open Budgets (Measure)

/-- `UsageMetrics.total_tokens`, with the coverage of its components. -/
def totalTokens (entry : UsageMetrics) : Measure Nat :=
  let wrap := fun total =>
    if totalEstimatedColumn entry then Measure.estimated total else Measure.measured total
  match entry.tokensIn.value?, entry.tokensOut.value? with
  | some tokensIn, some tokensOut =>
    if entry.cachedTokensScope = .additionalToInput then
      match entry.tokensCached.value? with
      | some tokensCached => wrap (tokensIn + tokensOut + tokensCached)
      | none => .unknown
    else wrap (tokensIn + tokensOut)
  | _, _ => .unknown

def reading : Metric → UsageEntry → Measure Nat
  | .tokensIn, entry => entry.tokensIn
  | .tokensOut, entry => entry.tokensOut
  | .tokensCached, entry => entry.tokensCached
  | .totalTokens, entry => totalTokens entry.toUsageMetrics
  | .cost, entry => amount entry.cost
  | .duration, entry => entry.duration

def knownSum (measure : UsageEntry → Measure Nat) (entries : List UsageEntry) : Nat :=
  (entries.filterMap fun entry => (measure entry).value?).sum

/-- How many entries have a measure of this coverage. -/
def covered (measure : UsageEntry → Measure Nat) (c : Coverage) (entries : List UsageEntry) : Nat :=
  entries.countP fun entry => coverage (measure entry) = c

/-- The status by its contract: `none` over no entry, `unknown` when no entry
has a value, `partial` when some has none, then `estimated` or `exact`. -/
def directStatus (measure : UsageEntry → Measure Nat) (entries : List UsageEntry) :
    UsageTotalStatus :=
  if entries = [] then .none
  else if ∀ entry ∈ entries, coverage (measure entry) = .unknown then .unknown
  else if ∃ entry ∈ entries, coverage (measure entry) = .unknown then .partial_
  else if ∃ entry ∈ entries, coverage (measure entry) = .estimated then .estimated
  else .exact

def directTotal (measure : UsageEntry → Measure Nat) (entries : List UsageEntry) : UsageTotal :=
  { status := directStatus measure entries
    knownSum :=
      if ∀ entry ∈ entries, coverage (measure entry) = .unknown then none
      else some (knownSum measure entries)
    measuredEntries := covered measure .measured entries
    estimatedEntries := covered measure .estimated entries
    unknownEntries := covered measure .unknown entries }

/-- The currencies of the known costs, in order. -/
def currencies (entries : List UsageEntry) : List String :=
  (entries.filterMap (·.costCurrency)).dedup.insertionSort (· ≤ ·)

/-- The entries whose cost is in a currency. -/
def paidIn (currency : String) (entries : List UsageEntry) : List UsageEntry :=
  entries.filter fun entry => entry.costCurrency = some currency

/-- Costs are added within a currency only. -/
def directCost (entries : List UsageEntry) : UsageCostTotal :=
  let only := match currencies entries with
    | [currency] => some currency
    | _ => none
  { status :=
      if 1 < (currencies entries).length then .mixedCurrency
      else directStatus (reading .cost) entries
    knownSum := only.map fun currency => knownSum (reading .cost) (paidIn currency entries)
    currency := only
    byCurrency := (currencies entries).map fun currency =>
      ⟨currency, knownSum (reading .cost) (paidIn currency entries), (paidIn currency entries).length⟩
    measuredEntries := covered (reading .cost) .measured entries
    estimatedEntries := covered (reading .cost) .estimated entries
    unknownEntries := covered (reading .cost) .unknown entries }

def directSources (entries : List UsageEntry) : List UsageSourceCount :=
  ((entries.map (·.provenance.collector)).dedup.insertionSort (· ≤ ·)).map fun collector =>
    ⟨collector, entries.countP fun entry => entry.provenance.collector = collector⟩

def directAggregate (key : UsageGroupKey) (entries : List UsageEntry) : UsageAggregate :=
  { key
    entries := entries.length
    firstPeriodStart := (entries.map (·.periodStart)).min?
    lastPeriodEnd := (entries.map (·.periodEnd)).max?
    tokensIn := directTotal (reading .tokensIn) entries
    tokensOut := directTotal (reading .tokensOut) entries
    tokensCached := directTotal (reading .tokensCached) entries
    totalTokens := directTotal (reading .totalTokens) entries
    cost := directCost entries
    duration := directTotal (reading .duration) entries
    sources := directSources entries }

theorem coverage_unknown_iff {α : Type} (measure : Measure α) :
    coverage measure = .unknown ↔ measure.value? = none := by
  cases measure <;> simp [coverage, Measure.value?]

theorem coverage_amount (cost) : coverage (amount cost) = coverage cost := by
  cases cost <;> rfl

theorem costCurrency_eq_none {entry} :
    entry.costCurrency = none ↔ coverage (reading .cost entry) = .unknown := by
  rw [reading, coverage_amount, coverage_unknown_iff, UsageEntry.costCurrency,
    Option.map_eq_none_iff]

section
variable (measure : UsageEntry → Measure Nat) (entries entries' : List UsageEntry)

@[simp] theorem knownSum_append :
    knownSum measure (entries ++ entries') = knownSum measure entries + knownSum measure entries' := by
  simp [knownSum]

@[simp] theorem covered_append (c) : covered measure c (entries ++ entries') =
      covered measure c entries + covered measure c entries' := by
  simp [covered]

theorem covered_eq_zero {c} :
    covered measure c entries = 0 ↔ ∀ entry ∈ entries, coverage (measure entry) ≠ c := by
  simp [covered, List.countP_eq_zero]

theorem covered_pos {c} :
    covered measure c entries ≠ 0 ↔ ∃ entry ∈ entries, coverage (measure entry) = c := by
  rw [ne_eq, covered_eq_zero]
  simp

theorem known_eq_zero : covered measure .measured entries + covered measure .estimated entries = 0 ↔
      ∀ entry ∈ entries, coverage (measure entry) = .unknown := by
  rw [Nat.add_eq_zero_iff, covered_eq_zero, covered_eq_zero]
  constructor
  · intro ⟨hmeasured, hestimated⟩ entry hentry
    cases hc : coverage (measure entry) with
    | measured => exact absurd hc (hmeasured entry hentry)
    | estimated => exact absurd hc (hestimated entry hentry)
    | unknown => rfl
  · intro h
    refine ⟨?_, ?_⟩ <;> intro entry hentry <;> simp [h entry hentry]

end

theorem knownSum_perm (measure) {entries entries'}
    (h : entries.Perm entries') : knownSum measure entries = knownSum measure entries' :=
  (h.filterMap _).sum_eq

theorem knownSum_le_of_sublist (measure) {entries entries'} (h : entries.Sublist entries') :
    knownSum measure entries ≤ knownSum measure entries' :=
  List.Sublist.sum_le_sum (h.filterMap _) (by simp)

/-- The accumulator of a metric that holds a list of entries. -/
def directMetric (measure : UsageEntry → Measure Nat) (entries : List UsageEntry) :
    MetricAccumulator :=
  { knownSum := knownSum measure entries
    measured := covered measure .measured entries
    estimated := covered measure .estimated entries
    unknown := covered measure .unknown entries }

theorem roundContext_of_lt {n} (h : n < 10 ^ 28) : roundContext n = n := if_pos h

theorem sqlSum_getD (column) : (sqlSum column).getD 0 = (column.filterMap id).sum := by
  rw [sqlSum]
  split
  · rename_i h
    rw [h]
    rfl
  · rfl

theorem directMetric_add {measure entries entries'}
    (hfits : knownSum measure (entries ++ entries') < 10 ^ 28) :
    (directMetric measure entries).add (measureColumns measure entries') =
      directMetric measure (entries ++ entries') := by
  have hsum : (sqlSum (entries'.map fun entry => (measure entry).value?)).getD 0 =
      knownSum measure entries' := by
    rw [sqlSum_getD, List.filterMap_map]
    rfl
  rw [knownSum_append] at hfits
  rw [MetricAccumulator.add, measureColumns, directMetric, directMetric]
  simp only [MetricAccumulator.mk.injEq, knownSum_append, covered_append]
  refine ⟨?_, rfl, rfl, rfl⟩
  cases hcolumn : sqlSum (entries'.map fun entry => (measure entry).value?) with
  | none =>
    rw [hcolumn] at hsum
    have hzero : 0 = knownSum measure entries' := hsum
    simp [← hzero]
  | some sum =>
    rw [hcolumn] at hsum
    have hsum' : sum = knownSum measure entries' := hsum
    simp only [hsum']
    exact roundContext_of_lt hfits

theorem directMetric_merge {measure entries entries'}
    (hfits : knownSum measure (entries ++ entries') < 10 ^ 28) :
    (directMetric measure entries).merge (directMetric measure entries') =
      directMetric measure (entries ++ entries') := by
  rw [knownSum_append] at hfits
  rw [MetricAccumulator.merge, MetricAccumulator.add, directMetric, directMetric, directMetric]
  simp only [MetricAccumulator.mk.injEq, knownSum_append, covered_append, and_true]
  exact roundContext_of_lt hfits

theorem directMetric_perm (measure) {entries entries'}
    (h : entries.Perm entries') : directMetric measure entries = directMetric measure entries' := by
  have hcovered : ∀ c, covered measure c entries = covered measure c entries' :=
    fun c => h.countP_eq _
  rw [directMetric, directMetric, knownSum_perm measure h, hcovered, hcovered, hcovered]

theorem directMetric_status (measure entries) :
    (directMetric measure entries).status = directStatus measure entries := by
  rw [MetricAccumulator.status, MetricAccumulator.known, directMetric, directStatus]
  simp only [known_eq_zero, covered_pos]
  by_cases hnil : entries = []
  · subst hnil
    simp
  · rw [if_neg hnil]
    by_cases hunknown : ∀ entry ∈ entries, coverage (measure entry) = .unknown
    · obtain ⟨entry, hentry⟩ := List.exists_mem_of_ne_nil entries hnil
      rw [if_pos hunknown, if_pos hunknown, if_pos ⟨entry, hentry, hunknown entry hentry⟩]
    · rw [if_neg hunknown, if_neg hunknown]

theorem directMetric_total (measure entries) :
    (directMetric measure entries).total = directTotal measure entries := by
  rw [MetricAccumulator.total, directMetric_status, directTotal]
  have hsum : (if (directMetric measure entries).known ≠ 0 then some (knownSum measure entries)
      else none) = if ∀ entry ∈ entries, coverage (measure entry) = .unknown then none
      else some (knownSum measure entries) := by
    by_cases hunknown : ∀ entry ∈ entries, coverage (measure entry) = .unknown
    · rw [if_pos hunknown]
      exact if_neg (not_not.mpr ((known_eq_zero measure entries).mpr hunknown))
    · rw [if_neg hunknown]
      exact if_pos (mt (known_eq_zero measure entries).mp hunknown)
  rw [← hsum]
  rfl

/-- The accumulator holds what the entries say. -/
structure Represents (acc : AggregateAccumulator) (entries : List UsageEntry) : Prop where
  count : acc.entries = entries.length
  firstPeriodStart : acc.firstPeriodStart = (entries.map (·.periodStart)).min?
  lastPeriodEnd : acc.lastPeriodEnd = (entries.map (·.periodEnd)).max?
  metrics : ∀ name, acc.metrics name = directMetric (reading name) entries
  costByCurrency : Tally.Denotes acc.costByCurrency fun currency =>
    if currency ∈ entries.filterMap (·.costCurrency) then
      some (directMetric (reading .cost) (paidIn currency entries))
    else none
  sources : Tally.Denotes acc.sources fun collector =>
    if collector ∈ entries.map (·.provenance.collector) then
      some (entries.countP fun entry => entry.provenance.collector = collector)
    else none

/-- No sum of the entries needs rounding. -/
def Fits (entries : List UsageEntry) : Prop :=
  ∀ name, knownSum (reading name) entries < 10 ^ 28

theorem Fits.sublist {entries entries'} (h : Fits entries')
    (hsub : entries.Sublist entries') : Fits entries :=
  fun name => Nat.lt_of_le_of_lt (knownSum_le_of_sublist _ hsub) (h name)

theorem Fits.perm {entries entries'} (h : Fits entries)
    (hperm : entries.Perm entries') : Fits entries' :=
  fun name => knownSum_perm (reading name) hperm ▸ h name

end StudioOS.Usage
