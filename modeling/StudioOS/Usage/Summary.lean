import StudioOS.Usage.Direct

/-!
# Summary — the fold of the rows is the direct sum

A row represents its part, merging keeps what is represented, and what an
accumulator is finalized to is the aggregate of what it represents.
-/

namespace StudioOS.Usage

open List Authz
open Budgets (Measure)

theorem min?_append (xs ys : List Timestamp) : (xs ++ ys).min? = match ys.min? with
      | none => xs.min?
      | some y =>
        match xs.min? with
        | none => some y
        | some x => if y < x then some y else some x := by
  cases hy : ys.min? with
  | none => simp [List.min?_eq_none_iff.mp hy]
  | some y =>
    obtain ⟨hymem, hyle⟩ := List.min?_eq_some_iff.mp hy
    cases hx : xs.min? with
    | none => simp [List.min?_eq_none_iff.mp hx, hy]
    | some x =>
      obtain ⟨hxmem, hxle⟩ := List.min?_eq_some_iff.mp hx
      by_cases hlt : y < x
      · simp only [if_pos hlt]
        refine List.min?_eq_some_iff.mpr ⟨mem_append_right _ hymem, ?_⟩
        intro b hb
        obtain hb | hb := mem_append.mp hb
        · exact (Nat.le_of_lt hlt).trans (hxle b hb)
        · exact hyle b hb
      · simp only [if_neg hlt]
        refine List.min?_eq_some_iff.mpr ⟨mem_append_left _ hxmem, ?_⟩
        intro b hb
        obtain hb | hb := mem_append.mp hb
        · exact hxle b hb
        · exact (Nat.le_of_not_lt hlt).trans (hyle b hb)

theorem max?_append (xs ys : List Timestamp) : (xs ++ ys).max? = match ys.max? with
      | none => xs.max?
      | some y =>
        match xs.max? with
        | none => some y
        | some x => if x < y then some y else some x := by
  cases hy : ys.max? with
  | none => simp [List.max?_eq_none_iff.mp hy]
  | some y =>
    obtain ⟨hymem, hyle⟩ := List.max?_eq_some_iff.mp hy
    cases hx : xs.max? with
    | none => simp [List.max?_eq_none_iff.mp hx, hy]
    | some x =>
      obtain ⟨hxmem, hxle⟩ := List.max?_eq_some_iff.mp hx
      by_cases hlt : x < y
      · simp only [if_pos hlt]
        refine List.max?_eq_some_iff.mpr ⟨mem_append_right _ hymem, ?_⟩
        intro b hb
        obtain hb | hb := mem_append.mp hb
        · exact (hxle b hb).trans (Nat.le_of_lt hlt)
        · exact hyle b hb
      · simp only [if_neg hlt]
        refine List.max?_eq_some_iff.mpr ⟨mem_append_left _ hxmem, ?_⟩
        intro b hb
        obtain hb | hb := mem_append.mp hb
        · exact hxle b hb
        · exact (hyle b hb).trans (Nat.le_of_not_lt hlt)

variable {xs ys : List Timestamp} {currency : String} {entry : UsageEntry} {part : Part}

theorem min?_perm (h : xs.Perm ys) : xs.min? = ys.min? := by
  cases hy : ys.min? with
  | none => rw [List.min?_eq_none_iff] at hy ⊢; exact (hy ▸ h).eq_nil
  | some y =>
    obtain ⟨hymem, hyle⟩ := List.min?_eq_some_iff.mp hy
    exact List.min?_eq_some_iff.mpr ⟨h.mem_iff.mpr hymem, fun b hb => hyle b (h.mem_iff.mp hb)⟩

theorem max?_perm (h : xs.Perm ys) : xs.max? = ys.max? := by
  cases hy : ys.max? with
  | none => rw [List.max?_eq_none_iff] at hy ⊢; exact (hy ▸ h).eq_nil
  | some y =>
    obtain ⟨hymem, hyle⟩ := List.max?_eq_some_iff.mp hy
    exact List.max?_eq_some_iff.mpr ⟨h.mem_iff.mpr hymem, fun b hb => hyle b (h.mem_iff.mp hb)⟩

theorem paidIn_append (currency) (entries entries') :
    paidIn currency (entries ++ entries') = paidIn currency entries ++ paidIn currency entries' :=
  filter_append ..

theorem paidIn_eq_nil {entries}
    (h : currency ∉ entries.filterMap (·.costCurrency)) : paidIn currency entries = [] := by
  refine filter_eq_nil_iff.mpr ?_
  intro entry hentry hpaid
  exact h (mem_filterMap.mpr ⟨entry, hentry, of_decide_eq_true hpaid⟩)

theorem countP_collector_eq_zero {collector : String} {entries : List UsageEntry}
    (h : collector ∉ entries.map (·.provenance.collector)) :
    (entries.countP fun entry => entry.provenance.collector = collector) = 0 := by
  refine countP_eq_zero.mpr ?_
  intro entry hentry heq
  exact h (mem_map.mpr ⟨entry, hentry, of_decide_eq_true heq⟩)

theorem represents_empty (key) : Represents { key } [] :=
  { count := rfl
    firstPeriodStart := rfl
    lastPeriodEnd := rfl
    metrics := fun _ => rfl
    costByCurrency := .nil
    sources := .nil }

@[simp] theorem AggregateAccumulator.merge_key (self other : AggregateAccumulator) :
    (self.merge other).key = self.key := rfl

theorem Represents.merge {entries' a b entries} (ha : Represents a entries)
    (hb : Represents b entries')
    (hfits : Fits (entries ++ entries')) :
    Represents (a.merge b) (entries ++ entries') := by
  refine ⟨?_, ?_, ?_, ?_, ?_, ?_⟩
  · show a.entries + b.entries = _
    rw [ha.count, hb.count, length_append]
  · rw [map_append, min?_append, ← ha.firstPeriodStart, ← hb.firstPeriodStart]
    rfl
  · rw [map_append, max?_append, ← ha.lastPeriodEnd, ← hb.lastPeriodEnd]
    rfl
  · intro name
    show (a.metrics name).merge (b.metrics name) = _
    rw [ha.metrics, hb.metrics, directMetric_merge (hfits name)]
  · show Tally.Denotes (Tally.addAll _ _ a.costByCurrency b.costByCurrency) _
    simp only [filterMap_append]
    refine ha.costByCurrency.mergeKeys hb.costByCurrency ?_ ?_ ?_
    · intro currency hnot
      rw [paidIn_eq_nil hnot]
      rfl
    · intro currency
      rw [paidIn_append]
      refine directMetric_merge ?_
      rw [← paidIn_append]
      exact hfits.sublist filter_sublist .cost
    · intro currency hnot
      rw [paidIn_append, paidIn_eq_nil hnot, append_nil]
  · show Tally.Denotes (Tally.addAll _ _ a.sources b.sources) _
    simp only [map_append]
    refine ha.sources.mergeKeys hb.sources ?_ ?_ ?_
    · intro collector hnot
      exact countP_collector_eq_zero hnot
    · intro collector
      exact countP_append.symm
    · intro collector hnot
      rw [countP_append, countP_collector_eq_zero hnot, Nat.add_zero]

theorem Represents.foldl {acc entries accs parts} (hacc : Represents acc entries)
    (hparts : List.Forall₂ Represents accs parts) (hfits : Fits (entries ++ parts.flatten)) :
    Represents (accs.foldl AggregateAccumulator.merge acc) (entries ++ parts.flatten) := by
  induction hparts generalizing acc entries with
  | nil => simpa using hacc
  | cons hpart _ ih =>
    rw [flatten_cons, ← append_assoc] at hfits ⊢
    exact ih (hacc.merge hpart (hfits.sublist (sublist_append_left _ _))) hfits

theorem foldl_merge_key (acc) (accs : List AggregateAccumulator) :
    (accs.foldl AggregateAccumulator.merge acc).key = acc.key := by
  induction accs generalizing acc with
  | nil => rfl
  | cons other accs ih => rw [foldl_cons, ih, AggregateAccumulator.merge_key]

theorem Represents.perm {entries' acc entries} (h : Represents acc entries)
    (hperm : entries.Perm entries') : Represents acc entries' := by
  refine ⟨?_, ?_, ?_, ?_, ?_, ?_⟩
  · rw [h.count, hperm.length_eq]
  · rw [h.firstPeriodStart, min?_perm (hperm.map _)]
  · rw [h.lastPeriodEnd, max?_perm (hperm.map _)]
  · intro name
    rw [h.metrics, directMetric_perm _ hperm]
  · have hpaid : ∀ currency, (paidIn currency entries).Perm (paidIn currency entries') :=
      fun currency => hperm.filter _
    have hcurrency := fun currency => (hperm.filterMap (·.costCurrency)).mem_iff (a := currency)
    refine ⟨h.costByCurrency.nodup, ?_⟩
    intro currency amount
    rw [h.costByCurrency.mem]
    simp [hcurrency, directMetric_perm _ (hpaid currency)]
  · have hcollector := fun collector =>
      (hperm.map (·.provenance.collector)).mem_iff (a := collector)
    refine ⟨h.sources.nodup, ?_⟩
    intro collector count
    rw [h.sources.mem]
    simp [hcollector, hperm.countP_eq]

theorem mem_currencies {entries} :
    currency ∈ currencies entries ↔ currency ∈ entries.filterMap (·.costCurrency) := by
  rw [currencies, (perm_insertionSort _ _).mem_iff, mem_dedup]

theorem coverage_of_paidIn {entries}
    (h : entry ∈ paidIn currency entries) : coverage (reading .cost entry) ≠ .unknown := by
  intro hunknown
  have hpaid : entry.costCurrency = some currency := of_decide_eq_true (mem_filter.mp h).2
  rw [costCurrency_eq_none.mpr hunknown] at hpaid
  cases hpaid

theorem covered_add (measure entries) :
    covered measure .measured entries + covered measure .estimated entries +
      covered measure .unknown entries = entries.length := by
  induction entries with
  | nil => rfl
  | cons entry entries ih =>
    rw [← singleton_append, covered_append, covered_append, covered_append, length_append, ← ih]
    have hone : covered measure .measured [entry] + covered measure .estimated [entry] +
        covered measure .unknown [entry] = 1 := by
      cases hc : coverage (measure entry) <;> simp [covered, hc]
    rw [length_singleton]
    omega

theorem known_paidIn (currency) (entries) :
    (directMetric (reading .cost) (paidIn currency entries)).known =
      (paidIn currency entries).length := by
  have hunknown : covered (reading .cost) .unknown (paidIn currency entries) = 0 :=
    (covered_eq_zero _ _).mpr fun entry hentry => coverage_of_paidIn hentry
  have hall := covered_add (reading .cost) (paidIn currency entries)
  rw [hunknown, Nat.add_zero] at hall
  exact hall

theorem finalize_cost {acc entries}
    (h : Represents acc entries) : acc.cost = directCost entries := by
  have hsorted : acc.costByCurrency.insertionSort (fun a b => a.1 ≤ b.1) =
      (currencies entries).map fun currency =>
        (currency, directMetric (reading .cost) (paidIn currency entries)) :=
    h.costByCurrency.insertionSort_eq
  rw [AggregateAccumulator.cost, h.metrics, hsorted, directCost]
  simp only [map_map, Function.comp_def, known_paidIn, directMetric_status, length_map]
  match hcurrencies : currencies entries with
  | [] => rfl
  | [currency] => rfl
  | currency :: other :: rest => rfl

theorem finalize_eq {acc entries}
    (h : Represents acc entries) : acc.finalize = directAggregate acc.key entries := by
  have hsources := h.sources.insertionSort_eq
  rw [AggregateAccumulator.finalize, directAggregate, finalize_cost h, h.count,
    h.firstPeriodStart, h.lastPeriodEnd, h.metrics, h.metrics, h.metrics, h.metrics, h.metrics,
    hsources]
  simp only [directMetric_total, map_map]
  rfl

/-! ## Rows -/

/-- The database cannot add the tokens of the entry as `bigint`. -/
def Overflows (entry : UsageMetrics) : Prop :=
  match entry.tokensIn.value?, entry.tokensOut.value? with
  | some tokensIn, some tokensOut =>
    2 ^ 63 ≤ tokensIn + tokensOut ∨ entry.cachedTokensScope = .additionalToInput ∧
      ∃ tokensCached ∈ entry.tokensCached.value?, 2 ^ 63 ≤ tokensIn + tokensOut + tokensCached
  | _, _ => False

theorem bigintAdd_ok {a b} (h : a + b < 2 ^ 63) : bigintAdd a b = .ok (a + b) := if_pos h

theorem bigintAdd_error {a b} (h : 2 ^ 63 ≤ a + b) : bigintAdd a b = .error .bigintOutOfRange :=
  if_neg (Nat.not_lt.mpr h)

theorem totalTokensColumn_ok {entry} (h : ¬ Overflows entry) :
    totalTokensColumn entry = .ok (totalTokens entry).value? := by
  rw [Overflows] at h
  rw [totalTokensColumn, totalTokens]
  cases hin : entry.tokensIn.value? with
  | none => rfl
  | some tokensIn =>
    cases hout : entry.tokensOut.value? with
    | none => rfl
    | some tokensOut =>
      simp only [hin, hout, not_or, Nat.not_le] at h
      obtain ⟨hsum, hcached⟩ := h
      simp only [bigintAdd_ok hsum]
      by_cases hscope : entry.cachedTokensScope = .additionalToInput
      · cases hval : entry.tokensCached.value? with
        | none => simp [hscope, Measure.value?, bind, Except.bind, pure, Except.pure]
        | some tokensCached =>
          have hall : tokensIn + tokensOut + tokensCached < 2 ^ 63 := by
            refine Nat.lt_of_not_le fun hle => hcached ⟨hscope, tokensCached, ?_, hle⟩
            simp [hval]
          cases hest : totalEstimatedColumn entry <;>
            simp [hscope, Measure.value?, bind, Except.bind, bigintAdd_ok hall, Functor.map,
              Except.map]
      · cases hest : totalEstimatedColumn entry <;>
          simp [hscope, Measure.value?, bind, Except.bind, pure, Except.pure]

theorem totalTokensColumn_error {entry} (h : Overflows entry) :
    totalTokensColumn entry = .error .bigintOutOfRange := by
  rw [Overflows] at h
  rw [totalTokensColumn]
  cases hin : entry.tokensIn.value? with
  | none => simp [hin] at h
  | some tokensIn =>
    cases hout : entry.tokensOut.value? with
    | none => simp [hin, hout] at h
    | some tokensOut =>
      simp only [hin, hout] at h
      by_cases hsum : 2 ^ 63 ≤ tokensIn + tokensOut
      · simp [bigintAdd_error hsum, bind, Except.bind]
      · obtain ⟨hscope, tokensCached, hval, hall⟩ := h.resolve_left hsum
        have hval' : entry.tokensCached.value? = some tokensCached := by simpa using hval
        simp [bigintAdd_ok (Nat.lt_of_not_le hsum), bind, Except.bind, hscope, hval',
          bigintAdd_error hall, Functor.map, Except.map]

theorem coverage_totalTokens (entry) : coverage (totalTokens entry) =
      if (totalTokens entry).value?.isSome then
        (if totalEstimatedColumn entry then .estimated else .measured) else .unknown := by
  rw [totalTokens]
  cases entry.tokensIn.value? with
  | none => rfl
  | some tokensIn =>
    cases entry.tokensOut.value? with
    | none => rfl
    | some tokensOut =>
      by_cases hscope : entry.cachedTokensScope = .additionalToInput
      · cases entry.tokensCached.value? with
        | none => simp [hscope, coverage, Measure.value?]
        | some tokensCached =>
          cases totalEstimatedColumn entry <;> simp [hscope, coverage, Measure.value?]
      · cases totalEstimatedColumn entry <;> simp [hscope, coverage, Measure.value?]

theorem totalTokensColumns_ok {entries} (h : ∀ entry ∈ entries, ¬ Overflows entry.toUsageMetrics) :
    totalTokensColumns entries = .ok (measureColumns (reading .totalTokens) entries) := by
  have hmap : (entries.mapM fun entry => do
      return (← totalTokensColumn entry.toUsageMetrics, totalEstimatedColumn entry.toUsageMetrics))
      = Except.ok (ε := UsageError) (entries.map fun entry =>
        ((totalTokens entry.toUsageMetrics).value?, totalEstimatedColumn entry.toUsageMetrics)) :=
    mapM_ok fun entry hentry => by rw [totalTokensColumn_ok (h entry hentry)]; rfl
  rw [totalTokensColumns, hmap]
  show Except.ok _ = Except.ok _
  rw [measureColumns]
  simp only [Except.ok.injEq, MetricColumns.mk.injEq, map_map, countP_map]
  refine ⟨rfl, ?_, ?_, ?_⟩
  all_goals
    refine countP_congr fun entry _ => ?_
    simp only [Function.comp_apply, reading, coverage_totalTokens]
    cases (totalTokens entry.toUsageMetrics).value? with
    | none => simp
    | some total => cases totalEstimatedColumn entry.toUsageMetrics <;> simp

theorem summaryMeasures_ok {entries} (h : ∀ entry ∈ entries, ¬ Overflows entry.toUsageMetrics) :
    summaryMeasures entries = .ok fun name => measureColumns (reading name) entries := by
  rw [summaryMeasures, totalTokensColumns_ok h]
  show Except.ok _ = Except.ok _
  congr 1
  funext name
  cases name <;> rfl

theorem summaryMeasures_error {entries} (hentry : entry ∈ entries)
    (h : Overflows entry.toUsageMetrics) :
    ∀ values, summaryMeasures entries ≠ .ok values := by
  intro values hvalues
  obtain ⟨columns, hcolumns, -⟩ := bind_ok hvalues
  obtain ⟨totals, htotals, -⟩ := bind_ok hcolumns
  obtain ⟨total, -, htotal⟩ := (mapM_results htotals).1 entry hentry
  rw [totalTokensColumn_error h] at htotal
  cases htotal

/-- The accumulator of a row all of whose tokens can be added. -/
def rowAccumulator (part : Part) : AggregateAccumulator :=
  { key := part.key
    entries := part.entries.length
    firstPeriodStart := (part.entries.map (·.periodStart)).min?
    lastPeriodEnd := (part.entries.map (·.periodEnd)).max?
    metrics := fun name => directMetric (reading name) part.entries
    costByCurrency :=
      match part.currency with
      | none => []
      | some currency => [(currency, directMetric (reading .cost) part.entries)]
    sources := [(part.collector, part.entries.length)] }

theorem partAccumulator_ok (hfits : Fits part.entries)
    (h : ∀ entry ∈ part.entries, ¬ Overflows entry.toUsageMetrics) :
    partAccumulator part = .ok (rowAccumulator part) := by
  have hadd : ∀ name, MetricAccumulator.add {} (measureColumns (reading name) part.entries) =
      directMetric (reading name) part.entries :=
    fun name => @directMetric_add (reading name) [] part.entries (hfits name)
  have hmerge : MetricAccumulator.merge {} (directMetric (reading .cost) part.entries) =
      directMetric (reading .cost) part.entries :=
    @directMetric_merge (reading .cost) [] part.entries (hfits .cost)
  rw [partAccumulator, summaryMeasures_ok h]
  show Except.ok _ = Except.ok _
  rw [rowAccumulator]
  congr 1
  simp only [AggregateAccumulator.mk.injEq, and_true]
  refine ⟨rfl, rfl, ?_, ?_, funext hadd, ?_⟩
  · cases (part.entries.map (·.periodStart)).min? <;> rfl
  · cases (part.entries.map (·.periodEnd)).max? <;> rfl
  · cases part.currency with
    | none => rfl
    | some currency =>
      show [(currency, MetricAccumulator.merge {} (MetricAccumulator.add {} _))] = _
      rw [← hmerge, ← hadd]

theorem denotes_singleton {κ α : Type} [DecidableEq κ] {k : κ} {a : α} {f : κ → Option α}
    (hk : f k = some a) (hne : ∀ k', k' ≠ k → f k' = none) : Tally.Denotes [(k, a)] f := by
  refine ⟨nodup_singleton _, ?_⟩
  intro k' a'
  rw [mem_singleton, Prod.mk.injEq]
  by_cases h : k' = k
  · subst h
    rw [hk]
    simp [eq_comm]
  · rw [hne k' h]
    simp [h]

theorem represents_row (hnonempty : part.entries ≠ [])
    (hcurrency : ∀ entry ∈ part.entries, entry.costCurrency = part.currency)
    (hcollector : ∀ entry ∈ part.entries, entry.provenance.collector = part.collector) :
    Represents (rowAccumulator part) part.entries := by
  obtain ⟨first, hfirst⟩ := exists_mem_of_ne_nil _ hnonempty
  refine ⟨rfl, rfl, rfl, fun _ => rfl, ?_, ?_⟩
  · show Tally.Denotes (match part.currency with
      | none => []
      | some currency => [(currency, directMetric (reading .cost) part.entries)]) _
    cases hpart : part.currency with
    | none =>
      refine ⟨nodup_nil, ?_⟩
      intro currency amount
      have hnot : currency ∉ part.entries.filterMap (·.costCurrency) := by
        intro hmem
        obtain ⟨entry, hentry, hpaid⟩ := mem_filterMap.mp hmem
        rw [hcurrency entry hentry, hpart] at hpaid
        cases hpaid
      rw [if_neg hnot]
      simp
    | some currency =>
      refine denotes_singleton ?_ ?_
      · have hmem : currency ∈ part.entries.filterMap (·.costCurrency) :=
          mem_filterMap.mpr ⟨first, hfirst, by rw [hcurrency first hfirst, hpart]⟩
        have hall : paidIn currency part.entries = part.entries := by
          refine filter_eq_self.mpr ?_
          intro entry hentry
          rw [hcurrency entry hentry, hpart, decide_eq_true_eq]
        rw [if_pos hmem, hall]
      · intro other hne
        refine if_neg ?_
        intro hmem
        obtain ⟨entry, hentry, hpaid⟩ := mem_filterMap.mp hmem
        rw [hcurrency entry hentry, hpart] at hpaid
        exact hne (Option.some.inj hpaid).symm
  · refine denotes_singleton ?_ ?_
    · have hmem : part.collector ∈ part.entries.map (·.provenance.collector) :=
        mem_map.mpr ⟨first, hfirst, hcollector first hfirst⟩
      have hall : (part.entries.countP fun entry => entry.provenance.collector = part.collector) =
          part.entries.length := by
        refine countP_eq_length.mpr ?_
        intro entry hentry
        rw [hcollector entry hentry, decide_eq_true_eq]
      rw [if_pos hmem, hall]
    · intro other hne
      refine if_neg ?_
      intro hmem
      obtain ⟨entry, hentry, heq⟩ := mem_map.mp hmem
      exact hne (heq.symm.trans (hcollector entry hentry))

/-! ## The fold -/

def partsOf (key : UsageGroupKey) (parts : List Part) : List Part :=
  parts.filter fun part => part.key = key

def keyAccumulator (parts : List Part) (key : UsageGroupKey) : AggregateAccumulator :=
  ((partsOf key parts).map rowAccumulator).foldl AggregateAccumulator.merge { key }

def entriesOf (titles : Uuid → Option String) (groupBy : UsageGroupBy) (key : UsageGroupKey)
    (entries : List UsageEntry) : List UsageEntry :=
  entries.filter fun entry => groupKey titles groupBy entry = key

section
variable {titles : Uuid → Option String} {query : SummaryQuery} {entries : List UsageEntry}
  {parts : List Part}

theorem Partition.mem_scope (h : Partition titles query entries parts)
    (hpart : part ∈ parts) (hentry : entry ∈ part.entries) : entry ∈ query.scope entries :=
  h.perm.mem_iff.mp (mem_flatMap.mpr ⟨part, hpart, hentry⟩)

theorem Partition.fits (h : Partition titles query entries parts)
    (hfits : Fits (query.scope entries)) : Fits (parts.flatMap (·.entries)) :=
  hfits.perm h.perm.symm

theorem Partition.represents (h : Partition titles query entries parts)
    (hpart : part ∈ parts) : Represents (rowAccumulator part) part.entries :=
  represents_row (h.nonempty part hpart) (h.currency part hpart) (h.collector part hpart)

theorem filter_flatMap_parts {p q} (h : ∀ part ∈ parts, ∀ entry ∈ part.entries, p entry = q part) :
    (parts.filter q).flatMap (·.entries) = (parts.flatMap (·.entries)).filter p := by
  induction parts with
  | nil => rfl
  | cons part parts ih =>
    have hrest := ih fun part hpart => h part (.tail _ hpart)
    have hpart := h part mem_cons_self
    rw [flatMap_cons, filter_append, ← hrest]
    cases hq : q part with
    | true =>
      rw [filter_cons_of_pos hq, flatMap_cons,
        filter_eq_self.mpr fun entry hentry => (hpart entry hentry).trans hq]
    | false =>
      have hnone : part.entries.filter p = [] := by
        refine filter_eq_nil_iff.mpr ?_
        intro entry hentry
        rw [hpart entry hentry, hq]
        simp
      rw [filter_cons_of_neg (by simp [hq]), hnone, nil_append]

theorem Partition.perm_entriesOf (h : Partition titles query entries parts) (key) :
    ((partsOf key parts).flatMap (·.entries)).Perm
      (entriesOf titles query.groupBy key (query.scope entries)) := by
  have hfilter := h.perm.filter fun entry => decide (groupKey titles query.groupBy entry = key)
  refine List.Perm.trans (List.Perm.of_eq ?_) hfilter
  refine filter_flatMap_parts ?_
  intro part hpart entry hentry
  rw [h.key part hpart entry hentry]

theorem Partition.represents_key (h : Partition titles query entries parts)
    (hfits : Fits (query.scope entries)) (key) :
    Represents (keyAccumulator parts key)
      (entriesOf titles query.groupBy key (query.scope entries)) := by
  have hparts : List.Forall₂ Represents ((partsOf key parts).map rowAccumulator)
      ((partsOf key parts).map (·.entries)) := by
    rw [List.forall₂_map_left_iff, List.forall₂_map_right_iff, List.forall₂_same]
    intro part hpart
    exact h.represents (mem_of_mem_filter hpart)
  have hall := (represents_empty key).foldl hparts ?_
  · rw [nil_append, ← flatMap_def] at hall
    exact hall.perm (h.perm_entriesOf key)
  · rw [nil_append, ← flatMap_def]
    exact (hfits.sublist filter_sublist).perm (h.perm_entriesOf key).symm

theorem Partition.accumulators_ok (h : Partition titles query entries parts)
    (hfits : Fits (query.scope entries))
    (hsums : ∀ entry ∈ query.scope entries, ¬ Overflows entry.toUsageMetrics) :
    accumulators parts = .ok (Tally.addAll (fun key => { key }) AggregateAccumulator.merge []
      (parts.map fun part => (part.key, rowAccumulator part))) := by
  have hrows : (parts.mapM fun part => do return (part.key, ← partAccumulator part)) =
      Except.ok (ε := UsageError) (parts.map fun part => (part.key, rowAccumulator part)) := by
    refine mapM_ok fun part hpart => ?_
    rw [partAccumulator_ok]
    · rfl
    · refine (h.fits hfits).sublist ?_
      rw [flatMap_def]
      exact sublist_flatten_of_mem (mem_map_of_mem hpart)
    · intro entry hentry
      exact hsums entry (h.mem_scope hpart hentry)
  rw [accumulators, hrows]
  rfl

theorem denotes_byKey (parts) :
    Tally.Denotes (Tally.addAll (fun key => { key }) AggregateAccumulator.merge []
        (parts.map fun part => (part.key, rowAccumulator part)))
      fun key => if key ∈ parts.map (·.key) then some (keyAccumulator parts key) else none :=
  Tally.denotes_tally parts (·.key) rowAccumulator

theorem row_of_byKey {byKey} (hbyKey : Tally.Denotes byKey fun key =>
      if key ∈ parts.map (·.key) then some (keyAccumulator parts key) else none) {row}
    (hrow : row ∈ byKey) :
    row.2 = keyAccumulator parts row.1 := by
  have hval := (hbyKey.mem row.1 row.2).mp hrow
  by_cases hk : row.1 ∈ parts.map (·.key)
  · rw [if_pos hk] at hval
    exact (Option.some.inj hval).symm
  · rw [if_neg hk] at hval
    cases hval

theorem Partition.mem_keys (h : Partition titles query entries parts) (key) :
    key ∈ parts.map (·.key) ↔ key ∈ (query.scope entries).map (groupKey titles query.groupBy) := by
  rw [mem_map, mem_map]
  constructor
  · rintro ⟨part, hpart, rfl⟩
    obtain ⟨entry, hentry⟩ := exists_mem_of_ne_nil _ (h.nonempty part hpart)
    exact ⟨entry, h.mem_scope hpart hentry, h.key part hpart entry hentry⟩
  · rintro ⟨entry, hentry, rfl⟩
    obtain ⟨part, hpart, hin⟩ := mem_flatMap.mp (h.perm.mem_iff.mpr hentry)
    exact ⟨part, hpart, (h.key part hpart entry hin).symm⟩

theorem Partition.represents_total {byKey} (h : Partition titles query entries parts)
    (hfits : Fits (query.scope entries)) (hbyKey : Tally.Denotes byKey fun key =>
      if key ∈ parts.map (·.key) then some (keyAccumulator parts key) else none) :
    Represents (totalAccumulator byKey) (query.scope entries) := by
  have hparts : List.Forall₂ Represents (byKey.map Prod.snd) ((byKey.map Prod.fst).map fun key =>
      entriesOf titles query.groupBy key (query.scope entries)) := by
    rw [map_map, List.forall₂_map_left_iff, List.forall₂_map_right_iff, List.forall₂_same]
    intro row hrow
    rw [row_of_byKey hbyKey hrow]
    exact h.represents_key hfits row.1
  have hperm : ((byKey.map Prod.fst).flatMap fun key =>
      entriesOf titles query.groupBy key (query.scope entries)).Perm (query.scope entries) := by
    refine Tally.flatMap_filter_perm hbyKey.nodup ?_
    intro entry hentry
    have hkey := (h.mem_keys _).mpr (mem_map_of_mem hentry)
    rw [hbyKey.mem_keys, if_pos hkey]
    rfl
  have hall := (represents_empty {}).foldl hparts ?_
  · rw [nil_append, ← flatMap_def] at hall
    exact hall.perm hperm
  · rw [nil_append, ← flatMap_def]
    exact hfits.perm hperm.symm

end

end StudioOS.Usage
