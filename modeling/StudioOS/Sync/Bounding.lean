import Mathlib.Order.MinMax
import StudioOS.Library.Budget
import StudioOS.Sync.Model

/-!
# Sync — Bounding

What the two loops of `answer` compute. `_collapse_ai_work` leaves, for each
event of the scan that matched, one SURVIVOR: the event itself, or the latest
matched event of its work entry, with the seq of the earliest one as its floor
(`exists_survivor`).
-/

namespace StudioOS.Sync

open List

variable {py : Pydantic} {scope : SyncScope} {limit maxChars effective : Nat} {scanned : List Event}
  {live : List Claim} {files : List String} {seqs : List Nat} {c d : Candidate} {e : Event}

/-! ## The lowest floor and the highest seq -/

theorem foldl_lower_le_start {seqs : List Nat} {b} :
    ∃ f ≤ b, seqs.foldl lower (some b) = some f := by
  induction seqs generalizing b with
  | nil => exact ⟨b, le_rfl, rfl⟩
  | cons n seqs ih =>
    obtain ⟨f, hf, h⟩ := @ih (min b n)
    exact ⟨f, hf.trans (min_le_left b n), h⟩

theorem foldl_lower_le {seqs : List Nat} {bound n} (hn : n ∈ seqs) :
    ∃ f ≤ n, seqs.foldl lower bound = some f := by
  induction seqs generalizing bound with
  | nil => cases hn
  | cons m seqs ih =>
    rcases mem_cons.mp hn with rfl | hmem
    · cases bound with
      | none => exact foldl_lower_le_start
      | some b =>
        obtain ⟨f, hf, h⟩ := @foldl_lower_le_start seqs (min b n)
        exact ⟨f, hf.trans (min_le_right b n), h⟩
    · exact ih hmem

theorem foldl_lower_mem {bound f}
    (h : seqs.foldl lower bound = some f) : bound = some f ∨ f ∈ seqs := by
  induction seqs generalizing bound with
  | nil => exact .inl h
  | cons n seqs ih =>
    rcases ih h with hb | hmem
    · cases bound with
      | none =>
        cases hb
        exact .inr (.head _)
      | some b =>
        simp only [lower, Option.some.injEq] at hb
        rcases min_choice b n with hmin | hmin
        · exact .inl (by rw [← hb, hmin])
        · exact .inr (by rw [← hb, hmin]; exact .head _)
    · exact .inr (mem_cons_of_mem n hmem)

theorem le_foldl_max_start {start} : start ≤ seqs.foldl max start := by
  induction seqs generalizing start with
  | nil => exact le_rfl
  | cons n seqs ih => exact (le_max_left start n).trans ih

theorem le_foldl_max {start n} (hn : n ∈ seqs) : n ≤ seqs.foldl max start := by
  induction seqs generalizing start with
  | nil => cases hn
  | cons m seqs ih =>
    rcases mem_cons.mp hn with rfl | hmem
    · exact (le_max_right start n).trans le_foldl_max_start
    · exact ih hmem

theorem foldl_max_mem {seqs : List Nat} {start} :
    seqs.foldl max start = start ∨ seqs.foldl max start ∈ seqs := by
  induction seqs generalizing start with
  | nil => exact .inl rfl
  | cons n seqs ih =>
    rcases @ih (max start n) with h | h
    · rw [foldl_cons, h]
      rcases max_choice start n with hmax | hmax
      · exact .inl hmax
      · exact .inr (by rw [hmax]; exact .head _)
    · exact .inr (mem_cons_of_mem n h)

/-- The candidates the bounding loop returns. -/
def taken (py : Pydantic) (limit maxChars : Nat) (cs : List Candidate) : List Candidate :=
  Budget.taken limit maxChars (fun c => py.dumpLength c.item) cs

def left (py : Pydantic) (limit maxChars : Nat) (cs : List Candidate) : List Candidate :=
  Budget.left limit maxChars (fun c => py.dumpLength c.item) cs

/-- **The bounding loop is the greedy selection.** -/
theorem foldl_offer (cs : List Candidate) (b : Bounds) :
    let T := Budget.takenFrom limit maxChars (fun c => py.dumpLength c.item)
      b.items.length b.chars cs
    let L := Budget.leftFrom limit maxChars (fun c => py.dumpLength c.item)
      b.items.length b.chars cs
    let b' := cs.foldl (Bounds.offer py limit maxChars) b
    b'.items = b.items ++ T.map Candidate.item ∧
    (∀ why, b'.overflow why = b.overflow why + L.countP fun c => c.why = why) ∧
    b'.nextCursor = (T.filterMap fun c => c.item.seq).foldl max b.nextCursor ∧
    b'.blocked = (L.filterMap Candidate.floorSeq).foldl lower b.blocked := by
  induction cs generalizing b with
  | nil => simp [Budget.takenFrom, Budget.leftFrom]
  | cons c cs ih =>
    by_cases h : b.items.length < limit ∧ b.chars + py.dumpLength c.item ≤ maxChars
    · have hoffer : Bounds.offer py limit maxChars b c = b.accept c (py.dumpLength c.item) := by
        rw [Bounds.offer, if_neg]
        simp only [Bool.or_eq_true, decide_eq_true_eq]
        omega
      have hlen : (b.accept c (py.dumpLength c.item)).items.length = b.items.length + 1 := by
        simp [Bounds.accept]
      obtain ⟨hi, ho, hn, hb⟩ := ih (b.accept c (py.dumpLength c.item))
      simp only [Budget.takenFrom, Budget.leftFrom, if_pos h, foldl_cons, hoffer]
      rw [hlen] at hi ho hn hb
      refine ⟨?_, ho, ?_, hb⟩
      · rw [hi]
        simp [Bounds.accept]
      · rw [hn]
        cases hseq : c.item.seq <;> simp [Bounds.accept, hseq]
    · have hoffer : Bounds.offer py limit maxChars b c = b.refuse c := by
        rw [Bounds.offer, if_pos]
        simp only [Bool.or_eq_true, decide_eq_true_eq]
        omega
      obtain ⟨hi, ho, hn, hb⟩ := ih (b.refuse c)
      simp only [Budget.takenFrom, Budget.leftFrom, if_neg h, foldl_cons, hoffer]
      refine ⟨hi, ?_, hn, ?_⟩
      · intro why
        rw [ho why, countP_cons]
        by_cases hwhy : why = c.why
        · subst hwhy
          simp only [Bounds.refuse, if_true, decide_true]
          omega
        · simp only [Bounds.refuse, if_neg hwhy, decide_eq_true_eq, if_neg (Ne.symm hwhy)]
          omega
      · refine hb.trans ?_
        cases hfloor : c.floorSeq <;> simp [Bounds.refuse, hfloor]

theorem floorOf_eq {cs R} (hcs : cs.Pairwise R) (hc : c ∈ cs) {w} (hw : c.workId = some w) :
    ∃ first ∈ cs, first.workId = some w ∧ floorOf cs w = first.floorSeq ∧
      (first = c ∨ R first c) := by
  induction cs with
  | nil => cases hc
  | cons d cs ih =>
    rw [pairwise_cons] at hcs
    by_cases hd : d.workId = some w
    · refine ⟨d, .head _, hd, by simp [floorOf, hd], ?_⟩
      rcases mem_cons.mp hc with rfl | hmem
      · exact .inl rfl
      · exact .inr (hcs.1 c hmem)
    rcases mem_cons.mp hc with rfl | hmem
    · exact absurd hw hd
    · obtain ⟨first, hfirst, hfw, hfloor, hrel⟩ := ih hcs.2 hmem
      refine ⟨first, mem_cons_of_mem d hfirst, hfw, ?_, hrel⟩
      rw [← hfloor]
      simp [floorOf, hd]

theorem mem_collapseLoop {all cs} (hd : d ∈ collapseLoop all cs) :
    ∃ c ∈ cs, (c.workId = none ∧ d = c) ∨
      ∃ w, c.workId = some w ∧ d = { c with floorSeq := floorOf all w } := by
  induction cs with
  | nil => cases hd
  | cons c cs ih =>
    simp only [collapseLoop] at hd
    cases hw : c.workId with
    | none =>
      rw [hw] at hd
      rcases mem_cons.mp hd with rfl | hmem
      · exact ⟨d, .head _, .inl ⟨hw, rfl⟩⟩
      · obtain ⟨c', hc', h⟩ := ih hmem
        exact ⟨c', mem_cons_of_mem c hc', h⟩
    | some w =>
      rw [hw] at hd
      simp only at hd
      split at hd
      · obtain ⟨c', hc', h⟩ := ih hd
        exact ⟨c', mem_cons_of_mem c hc', h⟩
      · rcases mem_cons.mp hd with rfl | hmem
        · exact ⟨c, .head _, .inr ⟨w, hw, by rw [hw]⟩⟩
        · obtain ⟨c', hc', h⟩ := ih hmem
          exact ⟨c', mem_cons_of_mem c hc', h⟩

theorem collapseLoop_covers {all cs R} (hcs : cs.Pairwise R) {c} (hc : c ∈ cs) :
    (c.workId = none ∧ c ∈ collapseLoop all cs) ∨
    ∃ w, c.workId = some w ∧ ∃ last ∈ cs, last.workId = some w ∧ (last = c ∨ R c last) ∧
      { last with floorSeq := floorOf all w } ∈ collapseLoop all cs := by
  induction cs generalizing c with
  | nil => cases hc
  | cons d cs ih =>
    rw [pairwise_cons] at hcs
    have hgrow : ∀ x ∈ collapseLoop all cs, x ∈ collapseLoop all (d :: cs) := by
      intro x hx
      simp only [collapseLoop]
      split
      · exact .tail _ hx
      · split
        · exact hx
        · exact .tail _ hx
    rcases mem_cons.mp hc with rfl | hmem
    · cases hw : c.workId with
      | none =>
        refine .inl ⟨rfl, ?_⟩
        simp only [collapseLoop, hw]
        exact .head _
      | some w =>
        refine .inr ⟨w, rfl, ?_⟩
        by_cases hlater : cs.any fun e => e.workId = some w
        · obtain ⟨e, he, hew⟩ := any_eq_true.mp hlater
          rw [decide_eq_true_eq] at hew
          -- the later candidate has a survivor, and so has `c`
          rcases ih hcs.2 he with ⟨hnone, -⟩ | ⟨w', hw', last, hlast, hlw, -, hin⟩
          · rw [hew] at hnone
            cases hnone
          · rw [hew] at hw'
            cases hw'
            exact ⟨last, mem_cons_of_mem c hlast, hlw, .inr (hcs.1 last hlast), hgrow _ hin⟩
        · refine ⟨c, .head _, hw, .inl rfl, ?_⟩
          simp only [collapseLoop, hw, if_neg hlater]
          exact .head _
    · rcases ih hcs.2 hmem with ⟨hnone, hin⟩ | ⟨w, hw, last, hlast, hlw, hrel, hin⟩
      · exact .inl ⟨hnone, hgrow c hin⟩
      · exact .inr ⟨w, hw, last, mem_cons_of_mem d hlast, hlw, hrel, hgrow _ hin⟩

/-! ## Survivors of a scan -/

theorem classify_eq (h : scope.classify py e = some c) :
    ∃ why signal, c = eventCandidate e why signal := by
  unfold SyncScope.classify at h
  split at h
  · split at h
    · cases h
    · split at h
      · cases h
      · obtain ⟨s, -, rfl⟩ := Option.map_eq_some_iff.mp h
        exact ⟨_, _, rfl⟩
  · split at h
    · cases h
    split at h
    · cases h
      exact ⟨_, _, rfl⟩
    split at h
    · cases h
      exact ⟨_, _, rfl⟩
    · split at h
      · cases h
        exact ⟨_, _, rfl⟩
      · cases h

theorem classify_seq (h : scope.classify py e = some c) : c.item.seq = some e.seq := by
  obtain ⟨_, _, rfl⟩ := classify_eq h
  rfl

theorem classify_floor (h : scope.classify py e = some c) : c.floorSeq = some e.seq := by
  obtain ⟨_, _, rfl⟩ := classify_eq h
  rfl

theorem classify_workId (h : scope.classify py e = some c) : c.workId = aiWorkId e := by
  obtain ⟨_, _, rfl⟩ := classify_eq h
  rfl

theorem classify_coordination (he : isCoordination e = true) (h : scope.classify py e = some c) :
    ∃ s, signal py e = some s ∧ c = eventCandidate e .coordination (some s) := by
  unfold SyncScope.classify at h
  rw [if_pos he] at h
  split at h
  · cases h
  · split at h
    · cases h
    · obtain ⟨s, hs, rfl⟩ := Option.map_eq_some_iff.mp h
      exact ⟨s, hs, rfl⟩

/-- The event matches: the loop over the scan appends a candidate. -/
def SyncScope.Matches (scope : SyncScope) (py : Pydantic) (e : Event) : Prop :=
  (scope.classify py e).isSome

theorem matches_of_classify (h : scope.classify py e = some c) : scope.Matches py e := by
  rw [SyncScope.Matches, h]
  rfl

/-- `e` and `e'` are events of one work entry. -/
def SameWork (e e' : Event) : Prop := ∃ w, aiWorkId e = some w ∧ aiWorkId e' = some w

/-- The candidate `d` stands for the matched events of the scan from
`first` to `last`, and its item is the one of `last`. -/
structure Survivor (py : Pydantic) (scope : SyncScope) (scanned : List Event) (d : Candidate)
    (first last : Event) : Prop where
  first_mem : first ∈ scanned
  last_mem : last ∈ scanned
  first_matches : scope.Matches py first
  item : ∃ c, scope.classify py last = some c ∧ d.item = c.item ∧ d.why = c.why
  floor : d.floorSeq = some first.seq
  one : first = last ∨ SameWork first last
  le : first.seq ≤ last.seq

theorem Survivor.item_seq {first last}
    (h : Survivor py scope scanned d first last) : d.item.seq = some last.seq := by
  obtain ⟨c, hc, hitem, -⟩ := h.item
  rw [hitem, classify_seq hc]

theorem Survivor.self (he : e ∈ scanned)
    (hc : scope.classify py e = some c) : Survivor py scope scanned c e e where
  first_mem := he
  last_mem := he
  first_matches := matches_of_classify hc
  item := ⟨c, hc, rfl, rfl⟩
  floor := classify_floor hc
  one := .inl rfl
  le := le_rfl

def collapsed (py : Pydantic) (scope : SyncScope) (scanned : List Event) : List Candidate :=
  collapseAiWork (scanned.filterMap (scope.classify py))

/-- The order of the candidates, by the events they came from. -/
def SeqBefore (py : Pydantic) (scope : SyncScope) (c d : Candidate) : Prop :=
  ∀ e f, scope.classify py e = some c → scope.classify py f = some d → e.seq < f.seq

theorem candidates_sorted (hsorted : scanned.Pairwise fun a b => a.seq < b.seq) :
    (scanned.filterMap (scope.classify py)).Pairwise (SeqBefore py scope) := by
  rw [pairwise_filterMap]
  refine hsorted.imp ?_
  intro a b hab c hc d hd e f he hf
  have hea : some e.seq = some a.seq := by rw [← classify_floor he, ← classify_floor hc]
  have hfb : some f.seq = some b.seq := by rw [← classify_floor hf, ← classify_floor hd]
  simp only [Option.some.injEq] at hea hfb
  omega

/-- The candidate that carries a work entry through the collapse is a
survivor, and its floor is at most the seq of every event of the entry. -/
theorem survivor_of_work (hsorted : scanned.Pairwise fun a b => a.seq < b.seq) {last cl}
    (he : e ∈ scanned) (hc : scope.classify py e = some c) (hlast : last ∈ scanned)
    (hcl : scope.classify py last = some cl) {w} (hw : c.workId = some w) (hwl : cl.workId = some w)
    (hle : e.seq ≤ last.seq) :
    ∃ first, Survivor py scope scanned
        { cl with floorSeq := floorOf (scanned.filterMap (scope.classify py)) w } first last ∧
      first.seq ≤ e.seq := by
  have hmem : c ∈ scanned.filterMap (scope.classify py) := mem_filterMap.mpr ⟨e, he, hc⟩
  obtain ⟨c₀, hc₀, hw₀, hfloor, hrel⟩ := floorOf_eq (candidates_sorted hsorted) hmem hw
  obtain ⟨first, hfirst, hcf⟩ := mem_filterMap.mp hc₀
  have hfe : first.seq ≤ e.seq := by
    rcases hrel with rfl | hrel
    · have := (classify_floor hcf).symm.trans (classify_floor hc)
      exact (Option.some.inj this).le
    · exact (hrel first e hcf hc).le
  refine ⟨first, ⟨hfirst, hlast, matches_of_classify hcf, ⟨cl, hcl, rfl, rfl⟩, ?_, ?_, ?_⟩, hfe⟩
  · rw [← classify_floor hcf]
    exact hfloor
  · exact .inr ⟨w, by rw [← classify_workId hcf, hw₀], by rw [← classify_workId hcl, hwl]⟩
  · exact hfe.trans hle

theorem survivor_of_mem (hsorted : scanned.Pairwise fun a b => a.seq < b.seq)
    (hd : d ∈ collapsed py scope scanned) :
    ∃ first last, Survivor py scope scanned d first last := by
  obtain ⟨c, hc, h⟩ := mem_collapseLoop hd
  obtain ⟨e, he, hce⟩ := mem_filterMap.mp hc
  rcases h with ⟨-, rfl⟩ | ⟨w, hw, rfl⟩
  · exact ⟨e, e, .self he hce⟩
  · obtain ⟨first, hs, -⟩ := survivor_of_work hsorted he hce he hce hw hw le_rfl
    exact ⟨first, e, hs⟩

/-- **Every matched event has a survivor**: its own candidate, or the one
of a later event of its work entry, whose floor is not above it. -/
theorem exists_survivor (hsorted : scanned.Pairwise fun a b => a.seq < b.seq)
    (he : e ∈ scanned) (hm : scope.Matches py e) :
    ∃ d ∈ collapsed py scope scanned, ∃ first last, Survivor py scope scanned d first last ∧
      first.seq ≤ e.seq ∧ (last = e ∨ (e.seq < last.seq ∧ SameWork e last)) := by
  obtain ⟨c, hc⟩ := Option.isSome_iff_exists.mp hm
  have hmem : c ∈ scanned.filterMap (scope.classify py) := mem_filterMap.mpr ⟨e, he, hc⟩
  rcases @collapseLoop_covers (scanned.filterMap (scope.classify py)) _ _
    (candidates_sorted hsorted) _ hmem with ⟨-, hin⟩ | ⟨w, hw, cl, hcl, hwl, hrel, hin⟩
  · exact ⟨c, hin, e, e, .self he hc, le_rfl, .inl rfl⟩
  rcases hrel with rfl | hrel
  · obtain ⟨first, hs, hle⟩ := survivor_of_work hsorted he hc he hc hw hw le_rfl
    exact ⟨_, hin, first, e, hs, hle, .inl rfl⟩
  obtain ⟨last, hlast, hcl'⟩ := mem_filterMap.mp hcl
  have hlt : e.seq < last.seq := hrel e last hc hcl'
  obtain ⟨first, hs, hle⟩ := survivor_of_work hsorted he hc hlast hcl' hw hwl hlt.le
  refine ⟨_, hin, first, last, hs, hle, .inr ⟨hlt, w, ?_, ?_⟩⟩
  · rw [← classify_workId hc, hw]
  · rw [← classify_workId hcl', hwl]

/-- The candidates of a call: the collapsed scan, then the claims. -/
def candidates (py : Pydantic) (scope : SyncScope) (scanned : List Event) (live : List Claim)
    (files : List String) : List Candidate :=
  collapsed py scope scanned ++ overlappingClaims scope.myTaskId files live

/-- Where the cursor may go without the bounds: to the end of a truncated
scan. -/
def scanEnd (effective : Nat) (scanned : List Event) : Nat :=
  match scanned.getLast? with
  | some last => if scanned.length = syncScanCap then max effective last.seq else effective
  | none => effective

/-- What the cursor stays below: the pending signals, and the floors of
the candidates left out. -/
def floors (py : Pydantic) (scope : SyncScope) (scanned : List Event) (live : List Claim)
    (files : List String) (limit maxChars : Nat) : List Nat :=
  (scanned.filter scope.pendingElsewhere).map Event.seq ++
    (left py limit maxChars (candidates py scope scanned live files)).filterMap Candidate.floorSeq

/-- The seqs of the items. -/
def returned (py : Pydantic) (scope : SyncScope) (scanned : List Event) (live : List Claim)
    (files : List String) (limit maxChars : Nat) : List Nat :=
  (taken py limit maxChars (candidates py scope scanned live files)).filterMap fun c => c.item.seq

/-- **What `answer` computes.** -/
theorem answer_eq : let r := answer py scope effective scanned live files limit maxChars
    let reach := (returned py scope scanned live files limit maxChars).foldl max
      (scanEnd effective scanned)
    r.nextCursor =
        (match (floors py scope scanned live files limit maxChars).foldl lower none with
        | some floor => min reach (floor - 1)
        | none => reach) ∧
    r.items = (taken py limit maxChars (candidates py scope scanned live files)).map
      Candidate.item ∧
    (∀ why, r.overflow why =
      (if why = .coordination then (scanned.filter scope.pendingElsewhere).length else 0) +
        (left py limit maxChars (candidates py scope scanned live files)).countP
          fun c => c.why = why) ∧
    r.resync = decide (scanned.length = syncScanCap) := by
  obtain ⟨hi, ho, hn, hb⟩ := @foldl_offer py limit maxChars
    (candidates py scope scanned live files)
    { items := []
      overflow := fun why =>
        if why = .coordination then (scanned.filter scope.pendingElsewhere).length else 0
      chars := 0
      nextCursor := scanEnd effective scanned
      blocked := (scanned.filter scope.pendingElsewhere).foldl
        (fun bound event => lower bound event.seq) none }
  refine ⟨?_, hi, ho, rfl⟩
  have hfloors : (floors py scope scanned live files limit maxChars).foldl lower none =
      ((left py limit maxChars (candidates py scope scanned live files)).filterMap
        Candidate.floorSeq).foldl lower ((scanned.filter scope.pendingElsewhere).foldl
          (fun bound event => lower bound event.seq) none) := by
    rw [floors, foldl_append, foldl_map]
  simp only [returned, hfloors]
  simp only [length_nil] at hn hb
  rw [taken, Budget.taken, left, Budget.left, ← hn, ← hb]
  rfl

end StudioOS.Sync
