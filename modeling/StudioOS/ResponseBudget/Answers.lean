import StudioOS.ResponseBudget.StartWork

/-!
# ResponseBudget — Answers

The trimmed answers of `studio_sync` and `studio_start_work`, and when their cursors are safe
(`sync_trimming`).
-/

namespace StudioOS.ResponseBudget

open JsonText Trimming Sync

variable {effective : Nat}
  {scanned : List Event}

theorem fitSync_eq {fuel result budget}
    (hfuel : result.items.length < fuel) : fitSync fuel result budget =
      some ((SyncPayload.mk result none).evict
        (evictions (SyncPayload.within budget) ⟨result, none⟩)).block := by
  have hloop := @fit_block ⟨result, none⟩ (SyncPayload.within budget) fuel hfuel
  rw [fitSync, hloop]
  rfl

theorem evictions_end {payload : SyncPayload} {budget} :
    let block := (payload.evict (evictions (SyncPayload.within budget) payload)).block
    renderedChars (blockFields block) ≤ budget ∨ block.items = [] := by
  have hloop := @fit_block payload (SyncPayload.within budget) _ (Nat.lt_succ_self _)
  have hstuck := fit_stuck hloop
  simp only at hstuck ⊢
  generalize payload.evict (evictions (SyncPayload.within budget) payload) = out at hstuck ⊢
  by_cases hfits : SyncPayload.within budget out = true
  · refine .inl (renderedChars_block.trans ?_)
    simpa [SyncPayload.within] using hfits
  · rw [if_neg hfits, first_none, List.forall_mem_singleton, trimSyncBlock_none] at hstuck
    exact .inr hstuck

/-- **Trimming a sync answer**: the loops of `fit_sync` and of `fit_start_work` end, within the
budget or without an item; items and counters sum up as before and the cursor is not below the
effective one; and it acknowledges no matched event that is neither in the remaining items nor
absorbed by one of them exactly when every event an evicted item had absorbed is above the cursor of
the whole answer or at or above an evicted event. -/
theorem sync_trimming (hsorted : scanned.Pairwise fun a b => a.seq < b.seq)
    (hpast : ∀ e ∈ scanned, effective < e.seq) (budget : Int) :
    let r := answer py scope effective scanned live files limit maxChars
    (∃ block, (∀ fuel > r.items.length, fitSync fuel r budget = some block) ∧
      (renderedChars (blockFields block) ≤ budget ∨ block.items = []) ∧
      total block = total r ∧ effective ≤ block.nextCursor ∧
      (CursorSafe py scope effective scanned block ↔ FloorsHeld py scope scanned r
          (evicted r (evictions (SyncPayload.within budget) ⟨r, none⟩)))) ∧
    ∀ payload : StartWork, payload.sync = some r →
      ∃ out, (∀ fuel > payload.weight, fitStartWork fuel payload budget = some out) ∧
        (renderedChars out.fields ≤ budget ∨ out.sync = none) ∧
        ∀ block, out.sync = some block →
          total block = total r ∧ effective ≤ block.nextCursor ∧
          (CursorSafe py scope effective scanned block ↔ FloorsHeld py scope scanned r
              (evicted r (startWorkEvictions budget payload r))) := by
  have hscan : Scan effective scanned := ⟨hsorted, hpast⟩
  refine ⟨⟨_, fun fuel hfuel => fitSync_eq hfuel, evictions_end, ?_, ?_, ?_⟩, ?_⟩
  · exact (evict_spec evictions_le).2.1
  · exact effective_le_evict hscan rfl evictions_le
  · exact evict_safe_iff hscan rfl evictions_le
  intro payload hsync
  obtain ⟨out, hout, hcases⟩ := @fitStartWork_cases payload budget _ hsync
  refine ⟨out, hout, ?_, ?_⟩
  · rcases hcases with hnone | ⟨hfits, -⟩
    · exact .inr hnone
    · exact .inl hfits
  intro block hblock
  rcases hcases with hnone | ⟨-, s, hs, hheld⟩
  · rw [hnone] at hblock
    cases hblock
  rw [hheld] at hblock
  cases hblock
  have hle : startWorkEvictions budget payload s.block ≤ s.block.items.length :=
    startWorkEvictions_le
  simp only [← hs]
  refine ⟨(evict_spec hle).2.1, effective_le_evict hscan hs hle, ?_⟩
  exact evict_safe_iff hscan hs hle

/-- A work entry that starts, three updates of the task, and its
completion. -/
def longScan : List Event :=
  [sampleEvent 11 "ai_work.started" [("ai_work_id", .string "w")],
    sampleEvent 12 "task.updated" [],
    sampleEvent 13 "task.updated" [],
    sampleEvent 14 "task.updated" [],
    sampleEvent 15 "ai_work.completed" [("ai_work_id", .string "w")]]

/-- Under 1000 characters the completion at 15 is evicted and the cursor
falls to 14: the start at 11, which it had absorbed, is acknowledged. -/
theorem sync_trimming_loses :
    ∃ block, fitSync 10 (answer plain sampleScope 10 longScan [] [] 50 1000) 1000 = some block ∧
      block.nextCursor = 14 ∧ ¬ CursorSafe plain sampleScope 10 longScan block := by
  have hrun : (fitSync 10 (answer plain sampleScope 10 longScan [] [] 50 1000) 1000).any
      (fun b => b.nextCursor = 14 ∧ b.items.map SyncItem.seq = [some 12, some 13, some 14]) =
        true := by decide +kernel
  obtain ⟨block, hblock, hb⟩ := (Option.any_eq_true _ _).mp hrun
  obtain ⟨hcursor, hseqs⟩ := of_decide_eq_true hb
  refine ⟨block, hblock, hcursor, ?_⟩
  have hmissing : ∀ e, Delivered plain sampleScope block e →
      some e.seq ∈ [some 12, some 13, some 14] := by
    rintro e ⟨c, hc, hitem⟩
    rw [← hseqs, ← classify_seq hc]
    exact List.mem_map_of_mem hitem
  rintro ⟨-, hsafe⟩
  have hmatches : sampleScope.Matches plain
      (sampleEvent 11 "ai_work.started" [("ai_work_id", .string "w")]) := by
    unfold SyncScope.Matches
    decide +kernel
  have hstart := hsafe _ (.head _) hmatches (by rw [hcursor]; decide)
  rcases hstart with hdel | ⟨e', he', -, hwork, hdel⟩
  · exact absurd (hmissing _ hdel) (by decide)
  have hentry : (aiWorkId e').isSome = true := by
    obtain ⟨w, -, hw⟩ := hwork
    rw [hw]
    rfl
  have hall : ∀ e ∈ longScan, (aiWorkId e).isSome = true →
      some e.seq ∉ [some 12, some 13, some 14] := by decide +kernel
  exact hall e' he' hentry (hmissing e' hdel)

theorem sync_trimming_sample : let r := answer plain sampleScope 10 longScan [] [] 50 1000
    (∃ block, (∀ fuel > r.items.length, fitSync fuel r 1000 = some block) ∧
      (renderedChars (blockFields block) ≤ 1000 ∨ block.items = []) ∧
      total block = total r ∧ 10 ≤ block.nextCursor ∧
      (CursorSafe plain sampleScope 10 longScan block ↔ FloorsHeld plain sampleScope longScan r
          (evicted r (evictions (SyncPayload.within 1000) ⟨r, none⟩)))) ∧
    ∀ payload : StartWork, payload.sync = some r →
      ∃ out, (∀ fuel > payload.weight, fitStartWork fuel payload 1000 = some out) ∧
        (renderedChars out.fields ≤ 1000 ∨ out.sync = none) ∧
        ∀ block, out.sync = some block →
          total block = total r ∧ 10 ≤ block.nextCursor ∧
          (CursorSafe plain sampleScope 10 longScan block ↔ FloorsHeld plain sampleScope longScan r
              (evicted r (startWorkEvictions 1000 payload r))) :=
  sync_trimming (by decide) (by decide) 1000

end StudioOS.ResponseBudget
