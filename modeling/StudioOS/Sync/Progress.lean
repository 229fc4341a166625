import StudioOS.Sync.Cursor

/-!
# Sync — Progress

When one call moves the cursor. A call whose overflow counts an event left a
candidate out, and the cursor stops below the lowest floor left out.
-/

namespace StudioOS.Sync

open List

variable {py : Pydantic} {scope : SyncScope} {limit maxChars effective : Nat}
  {scanned : List Event} {live : List Claim} {files : List String}

/-- The overflow counts an event: its `why` is not `claim_overlap`. -/
def SyncResult.CountsEvent (r : SyncResult) : Prop := ∃ why ≠ .claimOverlap, 0 < r.overflow why

/-- No signal of the scan waits for another live session. -/
def NothingPending (scope : SyncScope) (scanned : List Event) : Prop :=
  ∀ e ∈ scanned, scope.pendingElsewhere e = false

instance : Decidable (NothingPending scope scanned) :=
  inferInstanceAs (Decidable (∀ e ∈ scanned, scope.pendingElsewhere e = false))

/-- The first event of the scan that matches. -/
def oldestMatched (py : Pydantic) (scope : SyncScope) (scanned : List Event) : Option Event :=
  scanned.find? fun e => (scope.classify py e).isSome

/-- The floors of the events the bounds leave out. -/
def leftFloors (py : Pydantic) (scope : SyncScope) (scanned : List Event)
    (limit maxChars : Nat) : List Nat :=
  (left py limit maxChars (collapsed py scope scanned)).filterMap Candidate.floorSeq

/-- The bounds do not leave out what stands for the oldest matched event;
or that event is not next to the cursor, and an event is returned or the
scan is truncated. -/
def HasRoom (py : Pydantic) (scope : SyncScope) (effective : Nat) (scanned : List Event)
    (limit maxChars : Nat) : Prop :=
  ∃ oldest ∈ oldestMatched py scope scanned,
    oldest.seq ∉ leftFloors py scope scanned limit maxChars ∨
    (effective + 1 < oldest.seq ∧
      (taken py limit maxChars (collapsed py scope scanned) ≠ [] ∨ scanned.length = syncScanCap))

instance : Decidable (HasRoom py scope effective scanned limit maxChars) := by
  unfold HasRoom
  infer_instance

theorem taken_left_append (es cs) : ∃ count used,
      taken py limit maxChars (es ++ cs) = taken py limit maxChars es ++
        Budget.takenFrom limit maxChars (fun c => py.dumpLength c.item) count used cs ∧
      left py limit maxChars (es ++ cs) = left py limit maxChars es ++
        Budget.leftFrom limit maxChars (fun c => py.dumpLength c.item) count used cs :=
  Budget.takenFrom_append es cs

theorem returned_eq : returned py scope scanned live files limit maxChars =
    (taken py limit maxChars (collapsed py scope scanned)).filterMap fun c => c.item.seq := by
  obtain ⟨count, used, htaken, -⟩ := @taken_left_append py limit maxChars
    (collapsed py scope scanned) (overlappingClaims scope.myTaskId files live)
  have hclaims : (Budget.takenFrom limit maxChars (fun c => py.dumpLength c.item) count used
      (overlappingClaims scope.myTaskId files live)).filterMap (fun c => c.item.seq) = [] := by
    rw [filterMap_eq_nil_iff]
    intro c hc
    exact (claim_floor (Budget.mem_from_iff.mpr (.inl hc))).2.1
  rw [returned, candidates, htaken, filterMap_append, hclaims, append_nil]

theorem NothingPending.filter_eq (hnone : NothingPending scope scanned) :
    scanned.filter scope.pendingElsewhere = [] := by
  rw [filter_eq_nil_iff]
  intro e he
  simp [hnone e he]

theorem floors_eq (hnone : NothingPending scope scanned) :
    floors py scope scanned live files limit maxChars =
      leftFloors py scope scanned limit maxChars := by
  obtain ⟨count, used, -, hleft⟩ := @taken_left_append py limit maxChars
    (collapsed py scope scanned) (overlappingClaims scope.myTaskId files live)
  have hclaims : (Budget.leftFrom limit maxChars (fun c => py.dumpLength c.item) count used
      (overlappingClaims scope.myTaskId files live)).filterMap Candidate.floorSeq = [] := by
    rw [filterMap_eq_nil_iff]
    intro c hc
    exact (claim_floor (Budget.mem_from_iff.mpr (.inr hc))).1
  rw [floors, hnone.filter_eq, candidates, hleft, filterMap_append, hclaims, leftFloors]
  simp

theorem Survivor.why_ne {d first last}
    (h : Survivor py scope scanned d first last) : d.why ≠ .claimOverlap := by
  obtain ⟨c, hc, -, hwhy⟩ := h.item
  rw [hwhy]
  unfold SyncScope.classify at hc
  split at hc
  · split at hc
    · cases hc
    · split at hc
      · cases hc
      · obtain ⟨s, -, rfl⟩ := Option.map_eq_some_iff.mp hc
        exact nofun
  · split at hc
    · cases hc
    split at hc
    · cases hc
      exact nofun
    split at hc
    · cases hc
      exact nofun
    · split at hc
      · cases hc
        exact nofun
      · cases hc

theorem countsEvent_iff (hscan : Scan effective scanned) (hnone : NothingPending scope scanned) :
    (answer py scope effective scanned live files limit maxChars).CountsEvent ↔
      leftFloors py scope scanned limit maxChars ≠ [] := by
  obtain ⟨-, -, hoverflow, -⟩ := @answer_eq py scope limit maxChars effective scanned live files
  obtain ⟨count, used, -, hleft⟩ := @taken_left_append py limit maxChars
    (collapsed py scope scanned) (overlappingClaims scope.myTaskId files live)
  have hcount : ∀ why, (answer py scope effective scanned live files limit maxChars).overflow why =
      (left py limit maxChars (candidates py scope scanned live files)).countP
        fun c => c.why = why := by
    intro why
    rw [hoverflow why, hnone.filter_eq]
    simp
  constructor
  · rintro ⟨why, hne, hpos⟩ hnil
    rw [hcount why, countP_pos_iff] at hpos
    obtain ⟨d, hd, hwhy⟩ := hpos
    rw [decide_eq_true_eq] at hwhy
    rw [candidates, hleft] at hd
    rcases mem_append.mp hd with hmem | hmem
    · obtain ⟨first, last, hs⟩ := survivor_of_mem hscan.sorted (Budget.mem_of_left hmem)
      have : first.seq ∈ leftFloors py scope scanned limit maxChars :=
        mem_filterMap.mpr ⟨d, hmem, hs.floor⟩
      rw [hnil] at this
      cases this
    · rw [(claim_floor (Budget.mem_from_iff.mpr (.inr hmem))).2.2] at hwhy
      exact hne hwhy.symm
  · intro hnil
    obtain ⟨n, hn⟩ := exists_mem_of_ne_nil _ hnil
    obtain ⟨d, hd, -⟩ := mem_filterMap.mp hn
    obtain ⟨first, last, hs⟩ := survivor_of_mem hscan.sorted (Budget.mem_of_left hd)
    refine ⟨d.why, hs.why_ne, ?_⟩
    rw [hcount, countP_pos_iff]
    refine ⟨d, ?_, by simp⟩
    rw [candidates, hleft]
    exact mem_append_left _ hd

theorem oldestMatched_spec (hscan : Scan effective scanned) {oldest}
    (h : oldest ∈ oldestMatched py scope scanned) : oldest ∈ scanned ∧ scope.Matches py oldest ∧
      ∀ e ∈ scanned, scope.Matches py e → oldest.seq ≤ e.seq := by
  obtain ⟨hm, before, after, rfl, hbefore⟩ := List.find?_eq_some_iff_append.mp h
  refine ⟨mem_append_right _ (.head _), hm, ?_⟩
  intro e he hme
  rcases mem_append.mp he with hmem | hmem
  · have := hbefore e hmem
    rw [SyncScope.Matches] at hme
    simp [hme] at this
  · rcases mem_cons.mp hmem with rfl | hafter
    · exact le_rfl
    · have := (pairwise_append.mp hscan.sorted).2.1
      exact ((pairwise_cons.mp this).1 e hafter).le

variable {n : Nat} {e : Event}

theorem leftFloors_matched (hscan : Scan effective scanned)
    (hn : n ∈ leftFloors py scope scanned limit maxChars) :
    ∃ e ∈ scanned, scope.Matches py e ∧ e.seq = n := by
  obtain ⟨d, hd, hfloor⟩ := mem_filterMap.mp hn
  obtain ⟨first, last, hs⟩ := survivor_of_mem hscan.sorted (Budget.mem_of_left hd)
  rw [hs.floor] at hfloor
  cases hfloor
  exact ⟨first, hs.first_mem, hs.first_matches, rfl⟩

theorem effective_lt_returned (hscan : Scan effective scanned)
    (hn : n ∈ returned py scope scanned live files limit maxChars) :
    ∃ e ∈ scanned, e.seq = n ∧ effective < n := by
  rw [returned_eq] at hn
  obtain ⟨d, hd, hseq⟩ := mem_filterMap.mp hn
  obtain ⟨first, last, hs⟩ := survivor_of_mem hscan.sorted (Budget.mem_of_taken hd)
  rw [hs.item_seq] at hseq
  cases hseq
  exact ⟨last, hs.last_mem, rfl, hscan.past last hs.last_mem⟩

theorem scanEnd_eq : scanEnd effective scanned = effective ∨ scanned.length = syncScanCap ∧
      ∃ last ∈ scanned, scanEnd effective scanned = max effective last.seq := by
  unfold scanEnd
  split
  · rename_i last hlast
    split
    · rename_i hcap
      exact .inr ⟨hcap, last, List.mem_of_getLast? hlast, rfl⟩
    · exact .inl rfl
  · exact .inl rfl

theorem effective_lt_scanEnd (hscan : Scan effective scanned)
    (hcap : scanned.length = syncScanCap) : effective < scanEnd effective scanned := by
  have hne : scanned ≠ [] := by
    rintro rfl
    cases hcap
  unfold scanEnd
  rw [List.getLast?_eq_some_getLast hne]
  simp only [if_pos hcap]
  exact lt_of_lt_of_le (hscan.past _ (getLast_mem hne)) (le_max_right _ _)

theorem reach_iff (hscan : Scan effective scanned) :
    effective < (returned py scope scanned live files limit maxChars).foldl max
        (scanEnd effective scanned) ↔ taken py limit maxChars (collapsed py scope scanned) ≠ [] ∨
        scanned.length = syncScanCap := by
  constructor
  · intro h
    rcases @foldl_max_mem (returned py scope scanned live files limit maxChars)
      (scanEnd effective scanned) with hstart | hmem
    · rw [hstart] at h
      rcases @scanEnd_eq effective scanned with hend | ⟨hcap, -⟩
      · omega
      · exact .inr hcap
    · refine .inl fun hnil => ?_
      rw [returned_eq, hnil] at hmem
      cases hmem
  · rintro (hne | hcap)
    · obtain ⟨d, hd⟩ := exists_mem_of_ne_nil _ hne
      obtain ⟨first, last, hs⟩ := survivor_of_mem hscan.sorted (Budget.mem_of_taken hd)
      have hmem : last.seq ∈ returned py scope scanned live files limit maxChars := by
        rw [returned_eq]
        exact mem_filterMap.mpr ⟨d, hd, hs.item_seq⟩
      exact lt_of_lt_of_le (hscan.past last hs.last_mem) (le_foldl_max hmem)
    · exact lt_of_lt_of_le (effective_lt_scanEnd hscan hcap) le_foldl_max_start

/-! ## One call -/

/-- **A call whose overflow counts an event moves the cursor exactly when
it has room.** -/
theorem advances_iff_hasRoom (hscan : Scan effective scanned) (hnone : NothingPending scope scanned)
    (hcounts : (answer py scope effective scanned live files limit maxChars).CountsEvent) :
    effective < (answer py scope effective scanned live files limit maxChars).nextCursor ↔
      HasRoom py scope effective scanned limit maxChars := by
  rw [countsEvent_iff hscan hnone] at hcounts
  obtain ⟨n, hn⟩ := exists_mem_of_ne_nil _ hcounts
  obtain ⟨e, he, hme, rfl⟩ := leftFloors_matched hscan hn
  -- some event matches, so there is an oldest one
  obtain ⟨oldest, holdest⟩ : ∃ oldest, oldest ∈ oldestMatched py scope scanned := by
    refine Option.isSome_iff_exists.mp ?_
    rw [oldestMatched, List.find?_isSome]
    exact ⟨e, he, hme⟩
  obtain ⟨hmem, hm, hleast⟩ := oldestMatched_spec hscan holdest
  obtain ⟨hcursor, -⟩ := @answer_eq py scope limit maxChars effective scanned live files
  obtain ⟨f, hfe, hf⟩ := @foldl_lower_le _ none e.seq hn
  have hfmem : f ∈ leftFloors py scope scanned limit maxChars := by
    rcases foldl_lower_mem hf with h | h
    · cases h
    · exact h
  obtain ⟨e', he', hme', rfl⟩ := leftFloors_matched hscan hfmem
  have hold : oldest.seq ≤ e'.seq := hleast e' he' hme'
  have hpast : effective < oldest.seq := hscan.past oldest hmem
  rw [floors_eq hnone, hf] at hcursor
  simp only at hcursor
  rw [hcursor, lt_min_iff, reach_iff hscan]
  constructor
  · rintro ⟨hreach, hgap⟩
    refine ⟨oldest, holdest, ?_⟩
    by_cases hlow : oldest.seq ∈ leftFloors py scope scanned limit maxChars
    · obtain ⟨f', hf', hlow'⟩ := @foldl_lower_le _ none oldest.seq hlow
      rw [hf] at hlow'
      cases hlow'
      exact .inr ⟨by omega, hreach⟩
    · exact .inl hlow
  rintro ⟨oldest', holdest', hroom⟩
  rw [Option.mem_def] at holdest holdest'
  rw [holdest] at holdest'
  cases holdest'
  rcases hroom with hroom | ⟨hgap, hreach⟩
  · -- the oldest event is returned, and every floor left out is above it
    have hne : oldest.seq ≠ e'.seq := fun h => hroom (h ▸ hfmem)
    obtain ⟨d, hd, first, last, hs, hfirst, -⟩ := exists_survivor hscan.sorted hmem hm
    have hseq : first.seq = oldest.seq :=
      le_antisymm hfirst (hleast first hs.first_mem hs.first_matches)
    have htaken : d ∈ taken py limit maxChars (collapsed py scope scanned) := by
      rcases Budget.mem_iff.mp hd with htaken | hleft
      · exact htaken
      · exact absurd (mem_filterMap.mpr ⟨d, hleft, hs.floor⟩) (hseq ▸ hroom)
    exact ⟨.inl (ne_nil_of_mem htaken), by omega⟩
  · exact ⟨hreach, by omega⟩

theorem complete_of_stuck (hscan : Scan effective scanned) (hnone : NothingPending scope scanned)
    (hroom : (answer py scope effective scanned live files limit maxChars).CountsEvent →
      HasRoom py scope effective scanned limit maxChars)
    (hstuck : (answer py scope effective scanned live files limit maxChars).nextCursor =
      effective) :
    leftFloors py scope scanned limit maxChars = [] ∧ scanned.length ≠ syncScanCap := by
  have hleft : leftFloors py scope scanned limit maxChars = [] := by
    by_contra hne
    have hcounts := (@countsEvent_iff py scope limit maxChars effective scanned live files hscan
      hnone).mpr hne
    have := (advances_iff_hasRoom hscan hnone hcounts).mpr (hroom hcounts)
    omega
  refine ⟨hleft, fun hcap => ?_⟩
  obtain ⟨hcursor, -⟩ := @answer_eq py scope limit maxChars effective scanned live files
  rw [floors_eq hnone, hleft] at hcursor
  simp only [foldl_nil] at hcursor
  have hreach := (@reach_iff py scope limit maxChars effective scanned live files hscan).mpr
    (.inr hcap)
  rw [← hcursor] at hreach
  omega

theorem nextCursor_within (hscan : Scan effective scanned) :
    (answer py scope effective scanned live files limit maxChars).nextCursor = effective ∨
      ∃ e ∈ scanned,
        (answer py scope effective scanned live files limit maxChars).nextCursor ≤ e.seq := by
  obtain ⟨hcursor, -⟩ := @answer_eq py scope limit maxChars effective scanned live files
  have hmono := @effective_le_nextCursor py scope limit maxChars effective scanned live files hscan
  have hreach : (answer py scope effective scanned live files limit maxChars).nextCursor ≤
      (returned py scope scanned live files limit maxChars).foldl max
        (scanEnd effective scanned) := by
    rw [hcursor]
    split
    · exact min_le_left _ _
    · exact le_rfl
  rcases @foldl_max_mem (returned py scope scanned live files limit maxChars)
    (scanEnd effective scanned) with hstart | hmem
  · rw [hstart] at hreach
    rcases @scanEnd_eq effective scanned with hend | ⟨-, last, hlast, hend⟩
    · exact .inl (by omega)
    · by_cases hle : (answer py scope effective scanned live files limit maxChars).nextCursor ≤
          last.seq
      · exact .inr ⟨last, hlast, hle⟩
      · exact .inl (by omega)
  · obtain ⟨e, he, hseq, -⟩ := effective_lt_returned hscan hmem
    exact .inr ⟨e, he, by omega⟩

/-- The event is in an answer, or a later event of its work entry is. -/
def Covered (py : Pydantic) (scope : SyncScope) (log : List Event) (r : SyncResult) (e : Event) :
    Prop :=
  Delivered py scope r e ∨
    ∃ e' ∈ log, e.seq < e'.seq ∧ SameWork e e' ∧ Delivered py scope r e'

theorem covered_of_nothing_left (hscan : Scan effective scanned)
    (hleft : leftFloors py scope scanned limit maxChars = []) (he : e ∈ scanned)
    (hm : scope.Matches py e) :
    Covered py scope scanned (answer py scope effective scanned live files limit maxChars) e := by
  obtain ⟨s, hs, first, last, hsurvivor, -, hlast⟩ := exists_survivor hscan.sorted he hm
  have htaken : s ∈ taken py limit maxChars (collapsed py scope scanned) := by
    rcases Budget.mem_iff.mp hs with h | h
    · exact h
    · have : first.seq ∈ leftFloors py scope scanned limit maxChars :=
        mem_filterMap.mpr ⟨s, h, hsurvivor.floor⟩
      rw [hleft] at this
      cases this
  obtain ⟨c, hc, hitem, -⟩ := hsurvivor.item
  have hdel : Delivered py scope
      (answer py scope effective scanned live files limit maxChars) last := by
    obtain ⟨-, hitems, -⟩ := @answer_eq py scope limit maxChars effective scanned live files
    obtain ⟨count, used, happend, -⟩ := @taken_left_append py limit maxChars
      (collapsed py scope scanned) (overlappingClaims scope.myTaskId files live)
    refine ⟨c, hc, ?_⟩
    rw [hitems, candidates, happend, ← hitem]
    exact mem_map_of_mem (mem_append_left _ htaken)
  rcases hlast with rfl | ⟨hlt, hwork⟩
  · exact .inl hdel
  · exact .inr ⟨last, hsurvivor.last_mem, hlt, hwork, hdel⟩

theorem nothingPending_of_not_counts
    (hcounts : ¬ (answer py scope effective scanned live files limit maxChars).CountsEvent) :
    NothingPending scope scanned := by
  obtain ⟨-, -, hoverflow, -⟩ := @answer_eq py scope limit maxChars effective scanned live files
  intro e he
  by_contra hpending
  refine hcounts ⟨.coordination, nofun, ?_⟩
  have hpos : 0 < (scanned.filter scope.pendingElsewhere).length :=
    length_pos_of_mem (mem_filter.mpr ⟨he, Bool.of_not_eq_false hpending⟩)
  have hcount := hoverflow .coordination
  simp only [if_true] at hcount
  omega

/-- Events larger than the budget: a scan whose matched events do not fit
even alone returns none of them, and the cursor stays before each. -/
theorem oversized_refused (hscan : Scan effective scanned) (hnone : NothingPending scope scanned)
    (hwide : ∀ e ∈ scanned, ∀ c, scope.classify py e = some c → maxChars < py.dumpLength c.item)
    (he : e ∈ scanned) (hm : scope.Matches py e) :
    let r := answer py scope effective scanned live files limit maxChars
    r.CountsEvent ∧ r.nextCursor < e.seq ∧ ∀ e', ¬ Delivered py scope r e' := by
  have hcost : ∀ d ∈ collapsed py scope scanned, maxChars < py.dumpLength d.item := by
    intro d hd
    obtain ⟨first, last, hs⟩ := survivor_of_mem hscan.sorted hd
    obtain ⟨c, hc, hitem, -⟩ := hs.item
    rw [hitem]
    exact hwide last hs.last_mem c hc
  obtain ⟨htaken, hleft⟩ := @Budget.takenFrom_eq_nil Candidate 0 0 limit maxChars
    (fun c : Candidate => py.dumpLength c.item) _ hcost
  obtain ⟨d, hd, first, last, hs, hfirst, -⟩ := exists_survivor hscan.sorted he hm
  have hfloor : first.seq ∈ leftFloors py scope scanned limit maxChars := by
    rw [leftFloors, left, Budget.left, hleft]
    exact mem_filterMap.mpr ⟨d, hd, hs.floor⟩
  refine ⟨?_, ?_, ?_⟩
  · rw [countsEvent_iff hscan hnone]
    exact ne_nil_of_mem hfloor
  · refine lt_of_lt_of_le (nextCursor_lt_floor hscan ?_) hfirst
    rw [floors_eq hnone]
    exact hfloor
  rintro e' ⟨c, hc, hmem⟩
  obtain ⟨-, hitems, -⟩ := @answer_eq py scope limit maxChars effective scanned live files
  obtain ⟨count, used, happend, -⟩ := @taken_left_append py limit maxChars
    (collapsed py scope scanned) (overlappingClaims scope.myTaskId files live)
  rw [hitems, candidates, happend, taken, Budget.taken, htaken, nil_append] at hmem
  obtain ⟨claim, hclaim, hsame⟩ := mem_map.mp hmem
  -- an item with a seq is not a claim's
  have hseq := (claim_floor (Budget.mem_from_iff.mpr (.inl hclaim))).2.1
  rw [hsame, classify_seq hc] at hseq
  cases hseq

variable {log : List Event}

/-- The scan of a log past the effective cursor. -/
def scanPage (effective : Nat) (log : List Event) : List Event :=
  Paging.page Event.seq (some effective) syncScanCap log

theorem mem_log_of_mem_scan (he : e ∈ scanPage effective log) : e ∈ log :=
  (Paging.mem_past.mp (Paging.mem_past_of_mem_page he)).1

theorem mem_past_of_lt (he : e ∈ log) (hlow : effective < e.seq) :
    e ∈ Paging.past Event.seq (some effective) log :=
  Paging.mem_past.mpr ⟨he, fun c hc => by cases hc; exact hlow⟩

theorem scan_page (hlog : (log.map Event.seq).Nodup) : Scan effective (scanPage effective log) where
  sorted := Paging.page_sorted hlog
  past := fun _ he => (Paging.mem_past.mp (Paging.mem_past_of_mem_page he)).2 _ rfl

theorem Covered.of_scan {r}
    (h : Covered py scope (scanPage effective log) r e) : Covered py scope log r e := by
  rcases h with hdel | ⟨e', he', hlt, hwork, hdel⟩
  · exact .inl hdel
  · exact .inr ⟨e', mem_log_of_mem_scan he', hlt, hwork, hdel⟩

theorem mem_scan_of_passed (hlog : (log.map Event.seq).Nodup) (he : e ∈ log)
    (hlow : effective < e.seq)
    (hhigh : e.seq ≤ (answer py scope effective (scanPage effective log) live files limit
      maxChars).nextCursor) : e ∈ scanPage effective log := by
  rcases @nextCursor_within py scope limit maxChars effective _ live files (scan_page hlog) with
    heq | ⟨last, hlast, hle⟩
  · omega
  · exact Paging.mem_page_of_le hlog hlast (mem_past_of_lt he hlow) (hhigh.trans hle)

theorem covered_of_passed (hlog : (log.map Event.seq).Nodup) (he : e ∈ log)
    (hm : scope.Matches py e) (hlow : effective < e.seq)
    (hhigh : e.seq ≤ (answer py scope effective (scanPage effective log) live files limit
      maxChars).nextCursor) : Covered py scope log
      (answer py scope effective (scanPage effective log) live files limit maxChars) e := by
  have hscan := @scan_page effective log hlog
  obtain ⟨-, -, hsafe⟩ := @sync_cursor_safe py scope limit maxChars effective
    (scanPage effective log) live files hscan.sorted hscan.past
  exact Covered.of_scan (hsafe e (mem_scan_of_passed hlog he hlow hhigh) hm hhigh)

theorem covered_of_complete (hlog : (log.map Event.seq).Nodup)
    (hleft : leftFloors py scope (scanPage effective log) limit maxChars = [])
    (hshort : (scanPage effective log).length ≠ syncScanCap) (he : e ∈ log)
    (hm : scope.Matches py e) (hlow : effective < e.seq) : Covered py scope log
      (answer py scope effective (scanPage effective log) live files limit maxChars) e := by
  have hlen : (scanPage effective log).length < syncScanCap :=
    lt_of_le_of_ne Paging.length_page_le hshort
  have hin : e ∈ scanPage effective log := Paging.mem_page_of_short hlen (mem_past_of_lt he hlow)
  exact Covered.of_scan (covered_of_nothing_left (scan_page hlog) hleft hin hm)

end StudioOS.Sync
