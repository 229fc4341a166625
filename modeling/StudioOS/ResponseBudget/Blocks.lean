import StudioOS.ResponseBudget.Model

/-!
# ResponseBudget — Blocks

What evicting the last `k` items leaves of a sync block: the items before
them, the sum of items and counters, and a cursor below every evicted event
(`le_evict_cursor`).
-/

namespace StudioOS.ResponseBudget

open List JsonText Trimming Sync

variable {payload : SyncPayload} {k : Nat}

/-- The payload after `k` evictions. -/
def SyncPayload.evict (payload : SyncPayload) : Nat → SyncPayload
  | 0 => payload
  | k + 1 => (trimSyncBlock (payload.evict k)).getD (payload.evict k)

/-- The last `k` items. -/
def evicted (block : SyncResult) (k : Nat) : List SyncItem :=
  block.items.drop (block.items.length - k)

/-- The items of a block and what its counters count. -/
def total (block : SyncResult) : Nat := block.items.length + (allWhy.map block.overflow).sum

theorem trimSyncBlock_none : trimSyncBlock payload = none ↔ payload.block.items = [] := by
  simp [trimSyncBlock]

theorem sum_count (overflow) (why) :
    (allWhy.map fun w => if w = why then overflow w + 1 else overflow w).sum =
      (allWhy.map overflow).sum + 1 := by
  cases why <;> simp [allWhy] <;> omega

theorem evictLast_spec {items item}
    (h : payload.block.items = items ++ [item]) : let out := payload.evictLast item
    out.block.items = items ∧ total out.block = total payload.block ∧
      out.block.resync = payload.block.resync ∧
      ∀ bound, bound ≤ out.block.nextCursor ↔
        bound ≤ payload.block.nextCursor ∧ ∀ s, item.seq = some s → bound ≤ s - 1 := by
  refine ⟨by simp [SyncPayload.evictLast, h], ?_, rfl, ?_⟩
  · have hsum := sum_count payload.block.overflow item.why
    simp only [total, SyncPayload.evictLast, h, dropLast_concat, length_append, length_singleton]
    omega
  · intro bound
    cases hseq : item.seq with
    | none | some => simp [SyncPayload.evictLast, hseq]

/-- **What `k` evictions leave.** -/
theorem evict_spec (hk : k ≤ payload.block.items.length) : (payload.evict k).block.items =
        payload.block.items.take (payload.block.items.length - k) ∧
      total (payload.evict k).block = total payload.block ∧
      (payload.evict k).block.resync = payload.block.resync ∧
      ∀ bound, bound ≤ (payload.evict k).block.nextCursor ↔ bound ≤ payload.block.nextCursor ∧
          ∀ item ∈ evicted payload.block k, ∀ s, item.seq = some s → bound ≤ s - 1 := by
  induction k with
  | zero => simp [SyncPayload.evict, evicted]
  | succ k ih =>
    obtain ⟨hitems, htotal, hresync, hcursor⟩ := ih (by omega)
    obtain ⟨m, hm⟩ : ∃ m, payload.block.items.length - k = m + 1 :=
      ⟨payload.block.items.length - k - 1, by omega⟩
    have hm' : payload.block.items.length - (k + 1) = m := by omega
    have hlt : m < payload.block.items.length := by omega
    rw [hm, take_succ_eq_append_getElem hlt] at hitems
    obtain ⟨houtItems, houtTotal, houtResync, houtCursor⟩ := evictLast_spec hitems
    have hevict : payload.evict (k + 1) =
        (payload.evict k).evictLast payload.block.items[m] := by
      rw [SyncPayload.evict, trimSyncBlock, hitems, List.getLast?_concat]
      rfl
    have hsplit : evicted payload.block (k + 1) =
        payload.block.items[m] :: evicted payload.block k := by
      rw [evicted, evicted, hm, hm', drop_eq_getElem_cons hlt]
    rw [hevict, hm', hsplit]
    refine ⟨houtItems, houtTotal.trans htotal, houtResync.trans hresync, ?_⟩
    intro bound
    rw [houtCursor, hcursor, forall_mem_cons]
    tauto

theorem evict_step (hk : k < payload.block.items.length) :
    trimSyncBlock (payload.evict k) = some (payload.evict (k + 1)) := by
  obtain ⟨hitems, -⟩ := @evict_spec payload k hk.le
  cases h : trimSyncBlock (payload.evict k) with
  | none =>
    rw [trimSyncBlock_none, hitems] at h
    have := congrArg List.length h
    simp only [length_take, length_nil] at this
    omega
  | some out => rw [SyncPayload.evict, h, Option.getD_some]

theorem evict_last : trimSyncBlock (payload.evict payload.block.items.length) = none := by
  rw [trimSyncBlock_none, (@evict_spec payload _ le_rfl).1, Nat.sub_self, take_zero]

/-- How many items the budget takes: the least number that makes the
answer fit, or all of them. -/
def evictions (fits : SyncPayload → Bool) (payload : SyncPayload) : Nat :=
  least (fun k => fits (payload.evict k)) payload.block.items.length

theorem evictions_le {fits} : evictions fits payload ≤ payload.block.items.length := least_le

/-- **The loop of `trim_sync_block`**: the least number of evictions that
makes the answer fit. -/
theorem fit_block {fits fuel}
    (hfuel : payload.block.items.length < fuel) : let out := payload.evict (evictions fits payload)
    fit fits [trimSyncBlock] fuel payload = some (fits out, out) :=
  @fit_popping _ fits fuel trimSyncBlock payload.evict payload.block.items.length 0 (Nat.zero_le _)
    (fun _ hk => evict_step hk) evict_last (fun _ hj => absurd hj (Nat.not_lt_zero _)) (by omega)

theorem renderedChars_block :
    renderedChars (blockFields payload.block) ≤ renderedChars payload.fields :=
  Int.ofNat_le.mpr (chars_object_of_sublist (sublist_append_left _ _))

end StudioOS.ResponseBudget
