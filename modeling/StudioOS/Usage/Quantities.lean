import StudioOS.Usage.Summary

/-!
# Quantities — what adds up in a summary

A quantity of an aggregate is a number that its entries have a share in:
entries, tokens, seconds, amounts of one currency, counts by coverage, entries
of one collector.
-/

namespace StudioOS.Usage

open List Authz
open Budgets (Measure)

inductive Quantity where
  | entries
  | tokensIn
  | tokensOut
  | tokensCached
  | totalTokens
  | duration
  | amountIn (currency : String)
  | costsIn (currency : String)
  | measuredCosts
  | estimatedCosts
  | unknownCosts
  | collectedBy (collector : String)

namespace Quantity

def sumOf (total : UsageTotal) : Nat := total.knownSum.getD 0

/-- The quantity in an aggregate, as a client reads it. -/
def of (aggregate : UsageAggregate) : Quantity → Nat
  | .entries => aggregate.entries
  | .tokensIn => sumOf aggregate.tokensIn
  | .tokensOut => sumOf aggregate.tokensOut
  | .tokensCached => sumOf aggregate.tokensCached
  | .totalTokens => sumOf aggregate.totalTokens
  | .duration => sumOf aggregate.duration
  | .amountIn currency =>
    ((aggregate.cost.byCurrency.find? (·.currency = currency)).map (·.knownSum)).getD 0
  | .costsIn currency =>
    ((aggregate.cost.byCurrency.find? (·.currency = currency)).map (·.entries)).getD 0
  | .measuredCosts => aggregate.cost.measuredEntries
  | .estimatedCosts => aggregate.cost.estimatedEntries
  | .unknownCosts => aggregate.cost.unknownEntries
  | .collectedBy collector =>
    ((aggregate.sources.find? (·.collector = collector)).map (·.entries)).getD 0

def share (entries : List UsageEntry) : Quantity → Nat
  | .entries => entries.length
  | .tokensIn => knownSum (reading .tokensIn) entries
  | .tokensOut => knownSum (reading .tokensOut) entries
  | .tokensCached => knownSum (reading .tokensCached) entries
  | .totalTokens => knownSum (reading .totalTokens) entries
  | .duration => knownSum (reading .duration) entries
  | .amountIn currency => knownSum (reading .cost) (paidIn currency entries)
  | .costsIn currency => (paidIn currency entries).length
  | .measuredCosts => covered (reading .cost) .measured entries
  | .estimatedCosts => covered (reading .cost) .estimated entries
  | .unknownCosts => covered (reading .cost) .unknown entries
  | .collectedBy collector => entries.countP fun entry => entry.provenance.collector = collector

theorem share_append (quantity) (entries entries') :
    share (entries ++ entries') quantity = share entries quantity + share entries' quantity := by
  cases quantity <;> simp [share, paidIn_append]

theorem share_flatten (quantity) (parts : List (List UsageEntry)) :
    share parts.flatten quantity = (parts.map fun entries => share entries quantity).sum := by
  induction parts with
  | nil => cases quantity <;> rfl
  | cons entries parts ih => rw [flatten_cons, share_append, ih, map_cons, sum_cons]

theorem share_perm (quantity) {entries entries'}
    (h : entries.Perm entries') : share entries quantity = share entries' quantity := by
  have hpaid : ∀ currency, (paidIn currency entries).Perm (paidIn currency entries') :=
    fun currency => h.filter _
  cases quantity with
  | entries => exact h.length_eq
  | tokensIn | tokensOut | tokensCached | totalTokens | duration => exact knownSum_perm _ h
  | amountIn currency => exact knownSum_perm _ (hpaid currency)
  | costsIn currency => exact (hpaid currency).length_eq
  | measuredCosts | estimatedCosts | unknownCosts | collectedBy => exact h.countP_eq _

theorem knownSum_eq_zero {measure : UsageEntry → Measure Nat} {entries : List UsageEntry}
    (h : ∀ entry ∈ entries, coverage (measure entry) = .unknown) : knownSum measure entries = 0 := by
  have hnil : (entries.filterMap fun entry => (measure entry).value?) = [] := by
    refine filterMap_eq_nil_iff.mpr ?_
    intro entry hentry
    exact (coverage_unknown_iff _).mp (h entry hentry)
  rw [knownSum, hnil]
  rfl

theorem sumOf_directTotal (measure entries) :
    sumOf (directTotal measure entries) = knownSum measure entries := by
  rw [sumOf, directTotal]
  by_cases h : ∀ entry ∈ entries, coverage (measure entry) = .unknown
  · rw [if_pos h, knownSum_eq_zero h]
    rfl
  · rw [if_neg h]
    rfl

theorem find?_rows {α : Type} {names : List String} {name : α → String} {row}
    (hname : ∀ k, name (row k) = k) (k) :
    (names.map row).find? (fun a => name a = k) = if k ∈ names then some (row k) else none := by
  induction names with
  | nil => rfl
  | cons other names ih =>
    rw [map_cons, List.find?_cons, hname]
    by_cases h : other = k
    · subst h
      simp
    · have hne : k ≠ other := fun heq => h heq.symm
      simp [h, hne, ih]

theorem of_directAggregate (key entries)
    (quantity) : of (directAggregate key entries) quantity = share entries quantity := by
  cases quantity with
  | entries => rfl
  | tokensIn | tokensOut | tokensCached | totalTokens | duration => exact sumOf_directTotal _ _
  | amountIn currency | costsIn currency =>
    rw [of, directAggregate, directCost, find?_rows fun _ => rfl]
    by_cases h : currency ∈ currencies entries
    · rw [if_pos h]
      rfl
    · rw [if_neg h, share, paidIn_eq_nil (mt mem_currencies.mpr h)]
      rfl
  | measuredCosts | estimatedCosts | unknownCosts => rfl
  | collectedBy collector =>
    rw [of, directAggregate, directSources, find?_rows fun _ => rfl]
    by_cases h : collector ∈ entries.map (·.provenance.collector)
    · rw [if_pos]
      · rfl
      · rwa [(perm_insertionSort _ _).mem_iff, mem_dedup]
    · rw [if_neg, share, countP_collector_eq_zero h]
      · rfl
      · rwa [(perm_insertionSort _ _).mem_iff, mem_dedup]

end Quantity

/-- The cost of an aggregate tells unknown costs from known ones: it counts
them apart, has no amount when no cost is known, and calls itself whole only
when every cost is known. -/
structure CostsApart (cost : UsageCostTotal) (entries : List UsageEntry) : Prop where
  counted : cost.unknownEntries = entries.countP fun entry => entry.cost = .unknown
  amounts : (cost.byCurrency.map (·.entries)).sum + cost.unknownEntries = entries.length
  unpriced : (∀ entry ∈ entries, entry.cost = .unknown) →
    cost.byCurrency = [] ∧ cost.knownSum = none
  whole : cost.status = .exact ∨ cost.status = .estimated →
    ∀ entry ∈ entries, entry.cost ≠ .unknown

theorem cost_unknown_iff (entry) :
    coverage (reading .cost entry) = .unknown ↔ entry.cost = .unknown := by
  rw [reading, coverage_amount]
  cases entry.cost <;> simp [coverage]

theorem sum_paidIn (entries) :
    ((currencies entries).map fun currency => (paidIn currency entries).length).sum +
      covered (reading .cost) .unknown entries = entries.length := by
  let paid := entries.filter fun entry => entry.costCurrency.isSome
  have hnodup : ((currencies entries).map some).Nodup := by
    refine List.Nodup.map (Option.some_injective _) ?_
    exact (perm_insertionSort _ _).nodup_iff.mpr (nodup_dedup _)
  have hall : ∀ entry ∈ paid, entry.costCurrency ∈ (currencies entries).map some := by
    intro entry hentry
    obtain ⟨hentry, hpaid⟩ := mem_filter.mp hentry
    obtain ⟨currency, hcurrency⟩ := Option.isSome_iff_exists.mp hpaid
    rw [hcurrency]
    refine mem_map_of_mem (mem_currencies.mpr ?_)
    exact mem_filterMap.mpr ⟨entry, hentry, hcurrency⟩
  have hfilter : ∀ currency, (paid.filter fun entry => entry.costCurrency = some currency) =
      paidIn currency entries := by
    intro currency
    rw [filter_filter, paidIn]
    refine filter_congr fun entry _ => ?_
    cases entry.costCurrency <;> simp
  have hlength := (Tally.flatMap_filter_perm hnodup hall).length_eq
  rw [flatMap_map, length_flatMap] at hlength
  simp only [hfilter] at hlength
  have hunknown : covered (reading .cost) .unknown entries =
      (entries.filter fun entry => !entry.costCurrency.isSome).length := by
    rw [covered, countP_eq_length_filter]
    congr 1
    refine filter_congr fun entry _ => ?_
    rw [← Bool.coe_iff_coe, decide_eq_true_eq, ← costCurrency_eq_none]
    simp
  rw [hlength, hunknown, ← length_eq_length_filter_add]

theorem directStatus_whole {measure entries}
    (h : directStatus measure entries = .exact ∨ directStatus measure entries = .estimated) :
    ∀ entry ∈ entries, coverage (measure entry) ≠ .unknown := by
  intro entry hentry hunknown
  have hne : entries ≠ [] := ne_nil_of_mem hentry
  rw [directStatus, if_neg hne] at h
  by_cases hall : ∀ entry ∈ entries, coverage (measure entry) = .unknown
  · simp [if_pos hall] at h
  · rw [if_neg hall, if_pos ⟨entry, hentry, hunknown⟩] at h
    simp at h

theorem costsApart (entries) : CostsApart (directCost entries) entries := by
  refine ⟨?_, ?_, ?_, ?_⟩
  · refine countP_congr fun entry _ => ?_
    simp only [decide_eq_true_eq]
    exact cost_unknown_iff entry
  · rw [directCost, map_map]
    exact sum_paidIn entries
  · intro hall
    have hnone : entries.filterMap (·.costCurrency) = [] := by
      refine filterMap_eq_nil_iff.mpr ?_
      intro entry hentry
      exact costCurrency_eq_none.mpr ((cost_unknown_iff entry).mpr (hall entry hentry))
    have hnil : currencies entries = [] := by
      rw [currencies, hnone]
      rfl
    rw [directCost, hnil]
    exact ⟨rfl, rfl⟩
  · intro hstatus entry hentry hunknown
    refine directStatus_whole ?_ entry hentry ((cost_unknown_iff entry).mpr hunknown)
    by_cases hmixed : 1 < (currencies entries).length
    · rw [directCost] at hstatus
      simp [if_pos hmixed] at hstatus
    · rw [directCost] at hstatus
      simpa [if_neg hmixed] using hstatus

/-! ## The summary -/

/-- What a summary says of a ledger: `groups` are all its groups, newest
first, of which it shows the first `maxGroups`. -/
structure Summarizes (titles : Uuid → Option String) (query : SummaryQuery)
    (entries : List UsageEntry) (groups : List UsageAggregate) (summary : UsageSummary) :
    Prop where
  total : summary.total = directAggregate {} (query.scope entries)
  direct : ∀ aggregate, aggregate ∈ groups ↔ ∃ entry ∈ query.scope entries,
    aggregate = directAggregate (groupKey titles query.groupBy entry)
      (entriesOf titles query.groupBy (groupKey titles query.groupBy entry) (query.scope entries))
  keys : (groups.map (·.key)).Nodup
  newestFirst : groups.Pairwise fun a b =>
    toLex (b.key.day.getD 0, b.lastPeriodEnd.getD 0) ≤
      toLex (a.key.day.getD 0, a.lastPeriodEnd.getD 0)
  sums : ∀ quantity, (groups.map fun aggregate => Quantity.of aggregate quantity).sum =
    Quantity.of summary.total quantity
  shown : summary.groups = if query.groupBy = .none then [] else groups.take query.maxGroups
  truncated : summary.truncated = true ↔
    query.groupBy ≠ .none ∧ query.maxGroups < groups.length
  costs : CostsApart summary.total.cost (query.scope entries)
  groupCosts : ∀ aggregate ∈ groups, CostsApart aggregate.cost
    (entriesOf titles query.groupBy aggregate.key (query.scope entries))

/-- The caller may read the project and the period is one. -/
structure Admitted (principal : Principal) (query : SummaryQuery) : Prop where
  access : hasProjectAccess principal query.projectId = true
  period : ∀ since ∈ query.since, ∀ until_ ∈ query.until_, since ≤ until_

instance : Std.Total groupOrder := ⟨fun _ _ => le_total _ _⟩

instance : IsTrans _ groupOrder := ⟨fun _ _ _ hab hbc => le_trans hbc hab⟩

theorem summarizeUsage_eq {principal query} (h : Admitted principal query) (now parts) :
    summarizeUsage principal query now parts = (accumulators parts).map fun byKey =>
      let ordered := if query.groupBy = .none then [] else allGroups byKey
      { query
        generatedAt := now
        total := (totalAccumulator byKey).finalize
        groups := ordered.take query.maxGroups
        truncated := query.maxGroups < ordered.length } := by
  have hperiod : ¬ (query.since.any fun since => query.until_.any fun until_ => until_ < since) := by
    intro hany
    obtain ⟨since, hsince, hany⟩ := (Option.any_eq_true _ _).mp hany
    obtain ⟨until_, huntil, hlt⟩ := (Option.any_eq_true _ _).mp hany
    have hle := h.period since hsince until_ huntil
    exact Nat.not_lt.mpr hle (of_decide_eq_true hlt)
  rw [summarizeUsage, ensureProjectAccess, if_pos h.access, if_neg hperiod]
  cases accumulators parts <;> rfl

section
variable {principal : Principal}

theorem summarizeUsage_fails {titles query entries parts}
    (hparts : Partition titles query entries parts)
    (hadmitted : Admitted principal query) {entry} (hentry : entry ∈ query.scope entries)
    (h : Overflows entry.toUsageMetrics)
    (now summary) : summarizeUsage principal query now parts ≠ .ok summary := by
  intro hok
  rw [summarizeUsage_eq hadmitted] at hok
  cases haccs : accumulators parts with
  | error error =>
    rw [haccs] at hok
    cases hok
  | ok byKey =>
    obtain ⟨part, hpart, hin⟩ := mem_flatMap.mp (hparts.perm.mem_iff.mpr hentry)
    obtain ⟨rows, hrows, -⟩ := bind_ok haccs
    obtain ⟨row, -, hrow⟩ := (mapM_results hrows).1 part hpart
    obtain ⟨acc, hacc, -⟩ := bind_ok hrow
    obtain ⟨values, hvalues, -⟩ := bind_ok hacc
    exact summaryMeasures_error hin h values hvalues

/-- However the database cuts and orders the scope, the summary says of it what
its entries add up to. -/
theorem summarizeUsage_ok {titles query entries parts}
    (hparts : Partition titles query entries parts)
    (hadmitted : Admitted principal query) (hfits : Fits (query.scope entries))
    (hsums : ∀ entry ∈ query.scope entries, ¬ Overflows entry.toUsageMetrics) (now) :
    ∃ summary groups, summarizeUsage principal query now parts = .ok summary ∧
      Summarizes titles query entries groups summary := by
  have hdenotes := denotes_byKey parts
  have haccs := hparts.accumulators_ok hfits hsums
  rw [summarizeUsage_eq hadmitted, haccs]
  generalize Tally.addAll (fun key => { key }) AggregateAccumulator.merge []
    (parts.map fun part => (part.key, rowAccumulator part)) = byKey at hdenotes
  have hrow : ∀ row ∈ byKey, row.2.finalize = directAggregate row.1
      (entriesOf titles query.groupBy row.1 (query.scope entries)) := by
    intro row hin
    rw [row_of_byKey hdenotes hin, finalize_eq (hparts.represents_key hfits row.1),
      keyAccumulator, foldl_merge_key]
  have htotal : (totalAccumulator byKey).finalize = directAggregate {} (query.scope entries) := by
    rw [finalize_eq (hparts.represents_total hfits hdenotes), totalAccumulator, foldl_merge_key]
  have hsorted := perm_insertionSort groupOrder byKey
  have hgroups : allGroups byKey = (byKey.insertionSort groupOrder).map fun row =>
      directAggregate row.1 (entriesOf titles query.groupBy row.1 (query.scope entries)) :=
    map_congr_left fun row hin => hrow row (hsorted.mem_iff.mp hin)
  have hkeys : (allGroups byKey).map (·.key) = (byKey.insertionSort groupOrder).map Prod.fst := by
    rw [hgroups, map_map]
    rfl
  have hnodup : ((byKey.insertionSort groupOrder).map Prod.fst).Nodup :=
    (hsorted.map Prod.fst).nodup_iff.mpr hdenotes.nodup
  have hmem : ∀ key, key ∈ (byKey.insertionSort groupOrder).map Prod.fst ↔
      key ∈ (query.scope entries).map (groupKey titles query.groupBy) := by
    intro key
    rw [(hsorted.map Prod.fst).mem_iff, hdenotes.mem_keys, ← hparts.mem_keys]
    by_cases hk : key ∈ parts.map (·.key) <;> simp [hk]
  refine ⟨_, allGroups byKey, rfl, ?_⟩
  refine ⟨htotal, ?_, hkeys ▸ hnodup, ?_, ?_, ?_, ?_, ?_, ?_⟩
  · intro aggregate
    rw [hgroups, mem_map]
    constructor
    · rintro ⟨row, hin, rfl⟩
      obtain ⟨entry, hentry, hkey⟩ := mem_map.mp ((hmem row.1).mp (mem_map_of_mem hin))
      exact ⟨entry, hentry, by rw [hkey]⟩
    · rintro ⟨entry, hentry, rfl⟩
      obtain ⟨row, hin, hkey⟩ := mem_map.mp ((hmem _).mpr (mem_map_of_mem hentry))
      exact ⟨row, hin, by rw [hkey]⟩
  · rw [allGroups, pairwise_map]
    exact pairwise_insertionSort groupOrder byKey
  · intro quantity
    have hperm : (((byKey.insertionSort groupOrder).map Prod.fst).flatMap fun key =>
        entriesOf titles query.groupBy key (query.scope entries)).Perm (query.scope entries) := by
      refine Tally.flatMap_filter_perm hnodup ?_
      intro entry hentry
      exact (hmem _).mpr (mem_map_of_mem hentry)
    show _ = Quantity.of (totalAccumulator byKey).finalize quantity
    rw [htotal, Quantity.of_directAggregate, ← Quantity.share_perm quantity hperm, flatMap_def,
      Quantity.share_flatten, hgroups]
    simp only [map_map, Function.comp_def, Quantity.of_directAggregate]
  · by_cases hnone : query.groupBy = .none <;> simp [hnone]
  · by_cases hnone : query.groupBy = .none <;> simp [hnone]
  · show CostsApart (totalAccumulator byKey).finalize.cost _
    rw [htotal]
    exact costsApart _
  · intro aggregate hin
    rw [hgroups] at hin
    obtain ⟨row, -, rfl⟩ := mem_map.mp hin
    exact costsApart _

end

end StudioOS.Usage
