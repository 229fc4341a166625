import Mathlib.Data.List.Pairwise
import StudioOS.ResponseBudget.Blocks

/-!
# ResponseBudget — Cursor

Which events the cursor of a trimmed answer loses. An answer holds at most one item of a work entry
(`delivered_work`) and no seq twice, so the cursor of the trimmed answer is safe exactly when it
falls below each event that an evicted item had absorbed (`evict_safe_iff`).
-/

namespace StudioOS.ResponseBudget

open List JsonText Trimming Sync

variable {py : Pydantic} {scope : SyncScope} {limit maxChars effective : Nat}
  {scanned : List Event} {live : List Claim} {files : List String}

variable {s k : Nat}

/-! ## The items of an answer -/

theorem collapseLoop_one (all cs) :
    (collapseLoop all cs).Pairwise fun a b => ∀ w, a.workId = some w → b.workId ≠ some w := by
  induction cs with
  | nil => exact List.Pairwise.nil
  | cons c cs ih =>
    rw [collapseLoop]
    cases hw : c.workId with
    | none =>
      refine pairwise_cons.mpr ⟨?_, ih⟩
      intro b _ w hcw
      rw [hw] at hcw
      cases hcw
    | some w =>
      simp only
      by_cases hlater : (cs.any fun d => d.workId = some w) = true
      · rwa [if_pos hlater]
      rw [if_neg hlater]
      refine pairwise_cons.mpr ⟨?_, ih⟩
      intro b hb v hcv hbv
      -- the work entry of `b` is that of a later candidate
      obtain ⟨d, hd, hor⟩ := mem_collapseLoop hb
      have hdb : d.workId = b.workId := by
        rcases hor with ⟨-, rfl⟩ | ⟨_, -, rfl⟩ <;> rfl
      have hvw : v = w := by simpa [hw] using hcv.symm
      subst hvw
      refine hlater (any_eq_true.mpr ⟨d, hd, ?_⟩)
      simpa [hdb] using hbv

theorem collapseLoop_sublist (all cs) :
    ((collapseLoop all cs).map Candidate.item).Sublist (cs.map Candidate.item) := by
  induction cs with
  | nil => exact List.Sublist.refl _
  | cons c cs ih =>
    rw [collapseLoop]
    cases hw : c.workId with
    | none => exact ih.cons_cons _
    | some w =>
      simp only
      by_cases hlater : (cs.any fun d => d.workId = some w) = true
      · rw [if_pos hlater]
        exact ih.cons _
      · rw [if_neg hlater]
        exact ih.cons_cons _

theorem taken_sublist {maxCost count used cost}
    (cs : List Candidate) : (Budget.takenFrom limit maxCost cost count used cs).Sublist cs := by
  induction cs generalizing count used with
  | nil => exact List.Sublist.refl _
  | cons c cs ih =>
    rw [Budget.takenFrom]
    split
    · exact ih.cons_cons _
    · exact ih.cons _

def seqs (items : List SyncItem) : List Nat := items.filterMap SyncItem.seq

theorem mem_seqs {items} : s ∈ seqs items ↔ ∃ item ∈ items, item.seq = some s := mem_filterMap

theorem seqs_matched (scanned : List Event) :
    seqs ((scanned.filterMap (scope.classify py)).map Candidate.item) =
      (scanned.filter fun e => (scope.classify py e).isSome).map Event.seq := by
  induction scanned with
  | nil => rfl
  | cons e scanned ih =>
    simp only [seqs] at ih ⊢
    cases hc : scope.classify py e with
    | none => simpa [hc] using ih
    | some c => simpa [hc, classify_seq hc] using ih

theorem seqs_nodup (hsorted : scanned.Pairwise fun a b => a.seq < b.seq) :
    (seqs (answer py scope effective scanned live files limit maxChars).items).Nodup := by
  obtain ⟨-, hitems, -⟩ := @answer_eq py scope limit maxChars effective scanned live files
  have hclaims : seqs ((overlappingClaims scope.myTaskId files live).map Candidate.item) = [] := by
    simp only [seqs, filterMap_eq_nil_iff, mem_map]
    rintro _ ⟨c, hc, rfl⟩
    exact (claim_floor hc).2.1
  have hsub : (seqs (answer py scope effective scanned live files limit maxChars).items).Sublist
      ((scanned.filter fun e => (scope.classify py e).isSome).map Event.seq) := by
    rw [hitems, ← seqs_matched]
    refine List.Sublist.trans (((taken_sublist _).map _).filterMap _) ?_
    rw [candidates, map_append, filterMap_append]
    simp only [seqs] at hclaims ⊢
    rw [hclaims, append_nil]
    exact (collapseLoop_sublist _ _).filterMap _
  have hnodup : (scanned.map Event.seq).Nodup :=
    pairwise_map.mpr (hsorted.imp fun h => Nat.ne_of_lt h)
  exact (hnodup.sublist (filter_sublist.map _)).sublist hsub

variable {e e' : Event} {block : SyncResult} {payload : SyncPayload}

theorem event_of_item {item}
    (hitem : item ∈ (answer py scope effective scanned live files limit maxChars).items)
    (hs : item.seq = some s) :
    ∃ e ∈ scanned, e.seq = s ∧ ∃ d ∈ collapsed py scope scanned, d.item = item ∧
      d.workId = aiWorkId e := by
  obtain ⟨-, hitems, -⟩ := @answer_eq py scope limit maxChars effective scanned live files
  rw [hitems] at hitem
  obtain ⟨d, hd, rfl⟩ := mem_map.mp hitem
  rcases mem_append.mp (Budget.mem_of_taken hd) with hmem | hmem
  · obtain ⟨c, hc, hor⟩ := mem_collapseLoop hmem
    obtain ⟨e, he, hce⟩ := mem_filterMap.mp hc
    have hdc : d.item = c.item ∧ d.workId = c.workId := by
      rcases hor with ⟨-, rfl⟩ | ⟨_, -, rfl⟩ <;> exact ⟨rfl, rfl⟩
    refine ⟨e, he, ?_, d, hmem, rfl, hdc.2.trans (classify_workId hce)⟩
    rw [hdc.1, classify_seq hce] at hs
    exact Option.some.inj hs
  · rw [(claim_floor hmem).2.1] at hs
    cases hs

theorem event_unique (hsorted : scanned.Pairwise fun a b => a.seq < b.seq)
    (he : e ∈ scanned) (he' : e' ∈ scanned) (hseq : e.seq = e'.seq) : e = e' := by
  have hinj := inj_on_of_nodup_map
    (pairwise_map.mpr (hsorted.imp fun h => Nat.ne_of_lt h) : (scanned.map Event.seq).Nodup)
  exact hinj he he' hseq

/-- **One item of a work entry**: two delivered events of one entry are
the same event. -/
theorem delivered_work (hscan : Scan effective scanned) (he : e ∈ scanned)
    (he' : e' ∈ scanned) (hwork : SameWork e e')
    (hdel : Delivered py scope (answer py scope effective scanned live files limit maxChars) e)
    (hdel' : Delivered py scope (answer py scope effective scanned live files limit maxChars) e') :
    e = e' := by
  obtain ⟨w, hw, hw'⟩ := hwork
  obtain ⟨c, hc, hitem⟩ := hdel
  obtain ⟨c', hc', hitem'⟩ := hdel'
  obtain ⟨f, hf, hfs, d, hd, hdi, hdw⟩ := event_of_item hitem (classify_seq hc)
  obtain ⟨f', hf', hfs', d', hd', hdi', hdw'⟩ := event_of_item hitem' (classify_seq hc')
  obtain rfl := event_unique hscan.sorted hf he hfs
  obtain rfl := event_unique hscan.sorted hf' he' hfs'
  have hsymm : Std.Symm fun a b : Candidate => ∀ w, a.workId = some w → b.workId ≠ some w :=
    ⟨fun _ _ h w hb ha => h w ha hb⟩
  by_cases hdd : d = d'
  · subst hdd
    refine event_unique hscan.sorted hf hf' ?_
    have hseq : d.item.seq = some f.seq := by rw [hdi, classify_seq hc]
    rw [hdi', classify_seq hc'] at hseq
    exact (Option.some.inj hseq).symm
  · have hone := (collapseLoop_one _ _).forall hd hd' hdd w (hdw.trans hw)
    exact absurd (hdw'.trans hw') hone

/-! ## The cursor of a trimmed answer -/

/-- The cursor of a block acknowledges nothing that the block does not
hold: it is not below the effective cursor, and every matched event at or
below it has its item in the block, or a later event of the same work
entry has. -/
def CursorSafe (py : Pydantic) (scope : SyncScope) (effective : Nat) (scanned : List Event)
    (block : SyncResult) : Prop :=
  effective ≤ block.nextCursor ∧
  ∀ e ∈ scanned, scope.Matches py e → e.seq ≤ block.nextCursor →
    Delivered py scope block e ∨
      ∃ e' ∈ scanned, e.seq < e'.seq ∧ SameWork e e' ∧ Delivered py scope block e'

/-- Every matched event that an evicted item had absorbed is above the
cursor of the answer, or at or above an evicted event. -/
def FloorsHeld (py : Pydantic) (scope : SyncScope) (scanned : List Event) (block : SyncResult)
    (gone : List SyncItem) : Prop :=
  ∀ e ∈ scanned, scope.Matches py e → ∀ e' ∈ scanned, e.seq < e'.seq → SameWork e e' →
    (∃ c, scope.classify py e' = some c ∧ c.item ∈ gone) →
      block.nextCursor < e.seq ∨ ∃ s ∈ seqs gone, s ≤ e.seq

theorem mem_items_iff {item} : item ∈ block.items ↔
      item ∈ block.items.take (block.items.length - k) ∨ item ∈ evicted block k := by
  rw [evicted, ← mem_append, take_append_drop]

theorem not_kept_and_evicted (hsorted : scanned.Pairwise fun a b => a.seq < b.seq)
    (hblock : block = answer py scope effective scanned live files limit maxChars) {kept gone}
    (hkept : kept ∈ block.items.take (block.items.length - k)) (hgone : gone ∈ evicted block k)
    (hks : kept.seq = some s) : gone.seq ≠ some s := by
  have hnodup := @seqs_nodup py scope limit maxChars effective scanned live files hsorted
  rw [← hblock, ← take_append_drop (block.items.length - k) block.items, seqs,
    filterMap_append] at hnodup
  intro hgs
  exact (nodup_append.mp hnodup).2.2 s (mem_filterMap.mpr ⟨kept, hkept, hks⟩) s
    (mem_filterMap.mpr ⟨gone, hgone, hgs⟩) rfl

theorem effective_le_evict (hscan : Scan effective scanned)
    (hpayload : payload.block = answer py scope effective scanned live files limit maxChars)
    (hk : k ≤ payload.block.items.length) : effective ≤ (payload.evict k).block.nextCursor := by
  rw [(evict_spec hk).2.2.2]
  refine ⟨?_, ?_⟩
  · rw [hpayload]
    exact effective_le_nextCursor hscan
  intro item hitem s hs
  have hmem := mem_items_iff.mpr (.inr hitem)
  rw [hpayload] at hmem
  obtain ⟨e, he, rfl, -⟩ := event_of_item hmem hs
  have := hscan.past e he
  omega

/-- **When the cursor of a trimmed answer is safe.** -/
theorem evict_safe_iff (hscan : Scan effective scanned)
    (hpayload : payload.block = answer py scope effective scanned live files limit maxChars)
    (hk : k ≤ payload.block.items.length) :
    CursorSafe py scope effective scanned (payload.evict k).block ↔
      FloorsHeld py scope scanned payload.block (evicted payload.block k) := by
  obtain ⟨hitems, -, -, hcursor⟩ := evict_spec hk
  -- where the new cursor stands against an event past the effective one
  have hbelow : ∀ e ∈ scanned, (payload.evict k).block.nextCursor < e.seq ↔
      payload.block.nextCursor < e.seq ∨ ∃ s ∈ seqs (evicted payload.block k), s ≤ e.seq := by
    intro e he
    have hpos := hscan.past e he
    rw [← not_le, hcursor, not_and_or, not_le]
    refine or_congr Iff.rfl ?_
    push Not
    constructor
    · rintro ⟨item, hitem, s, hs, hlt⟩
      exact ⟨s, mem_seqs.mpr ⟨item, hitem, hs⟩, by omega⟩
    · rintro ⟨s, hs, hle⟩
      obtain ⟨item, hitem, hseq⟩ := mem_seqs.mp hs
      exact ⟨item, hitem, s, hseq, by omega⟩
  have hkeeps : ∀ e, Delivered py scope (payload.evict k).block e →
      Delivered py scope (answer py scope effective scanned live files limit maxChars) e := by
    rintro e ⟨c, hc, hitem⟩
    rw [hitems] at hitem
    exact ⟨c, hc, hpayload ▸ mem_of_mem_take hitem⟩
  constructor
  · rintro ⟨-, hsafe⟩ e he hm e' he' hlt hwork ⟨c, hc, hgone⟩
    rw [← hbelow e he]
    by_contra hle
    have hdel' : Delivered py scope
        (answer py scope effective scanned live files limit maxChars) e' :=
      ⟨c, hc, hpayload ▸ mem_items_iff.mpr (.inr hgone)⟩
    rcases hsafe e he hm (not_lt.mp hle) with hdel | ⟨f, hf, -, hwf, hdel⟩
    · -- the entry would have two items
      have := delivered_work hscan he he' hwork (hkeeps e hdel) hdel'
      subst this
      exact lt_irrefl _ hlt
    obtain ⟨w, hw, hw'⟩ := hwork
    obtain ⟨v, hv, hv'⟩ := hwf
    have hvw : v = w := by simpa [hv] using hw
    subst hvw
    have := delivered_work hscan hf he' ⟨v, hv', hw'⟩ (hkeeps f hdel) hdel'
    subst this
    obtain ⟨c₂, hc₂, hkept⟩ := hdel
    rw [hitems] at hkept
    exact not_kept_and_evicted hscan.sorted hpayload hkept hgone (classify_seq hc₂)
      (classify_seq hc)
  · intro hheld
    refine ⟨effective_le_evict hscan hpayload hk, ?_⟩
    intro e he hm hle
    have hnot := mt (hbelow e he).mpr (not_lt.mpr hle)
    push Not at hnot
    -- what the whole answer delivers is still there, or was evicted
    have hsplit : ∀ f, Delivered py scope payload.block f →
        Delivered py scope (payload.evict k).block f ∨
          ∃ c, scope.classify py f = some c ∧ c.item ∈ evicted payload.block k := by
      rintro f ⟨c, hc, hmem⟩
      rcases mem_items_iff.mp hmem with hkept | hgone
      · exact .inl ⟨c, hc, hitems ▸ hkept⟩
      · exact .inr ⟨c, hc, hgone⟩
    have hdel := (sync_cursor_safe hscan.sorted hscan.past).2.2 e he hm (hpayload ▸ hnot.1)
    rw [← hpayload] at hdel
    rcases hdel with hdel | ⟨e', he', hlt, hwork, hdel⟩
    · rcases hsplit e hdel with hkept | ⟨c, hc, hgone⟩
      · exact .inl hkept
      · have := hnot.2 e.seq (mem_seqs.mpr ⟨_, hgone, classify_seq hc⟩)
        exact absurd this (lt_irrefl _)
    rcases hsplit e' hdel with hkept | hgone
    · exact .inr ⟨e', he', hlt, hwork, hkept⟩
    · rcases hheld e he hm e' he' hlt hwork hgone with hnext | ⟨s, hs, hse⟩
      · have := hnot.1
        omega
      · have := hnot.2 s hs
        omega

end StudioOS.ResponseBudget
