import Mathlib.Data.List.Sort

/-!
# Paging — keyset pages of a log

A log is a list of rows in no particular order, each with a key that no other
row has. Reading PAST a cursor keeps the rows with a larger key; a PAGE is the
first `limit` of them in the order of their keys, which is `WHERE key > cursor
ORDER BY key LIMIT limit`.
-/

namespace Paging

open List

variable {α ι : Type*} [LinearOrder ι] (key : α → ι)

/-- The rows past a cursor; every row when there is none. -/
def past (cursor : Option ι) (log : List α) : List α :=
  log.filter fun a => ∀ c ∈ cursor, c < key a

/-- The first `limit` rows past the cursor, in the order of their keys. -/
def page (cursor : Option ι) (limit : Nat) (log : List α) : List α :=
  ((past key cursor log).insertionSort fun a b => key a ≤ key b).take limit

variable {key} {cursor : Option ι} {limit : Nat} {log : List α} {a b : α}

theorem mem_past : a ∈ past key cursor log ↔ a ∈ log ∧ ∀ c ∈ cursor, c < key a := by
  simp [past]

/-- Which rows a prefix of a sorted list has: those with fewer than
`limit` rows before them. -/
theorem mem_take_iff {rows : List α} (hrows : rows.Pairwise fun a b => key a < key b)
    (a : α) (limit : Nat) :
    a ∈ rows.take limit ↔ a ∈ rows ∧ (rows.filter fun b => key b < key a).length < limit := by
  induction rows generalizing limit with
  | nil => simp
  | cons r rows ih =>
    rw [pairwise_cons] at hrows
    obtain ⟨hr, hrest⟩ := hrows
    cases limit with
    | zero => simp
    | succ limit =>
      rw [take_succ_cons, mem_cons, mem_cons, ih hrest]
      constructor
      · rintro (rfl | ⟨hmem, hlt⟩)
        · refine ⟨.inl rfl, ?_⟩
          rw [filter_cons_of_neg (by simp), filter_eq_nil_iff.mpr]
          · simp
          · intro b hb
            simpa using (hr b hb).le
        · refine ⟨.inr hmem, ?_⟩
          rw [filter_cons_of_pos (by simpa using hr a hmem), length_cons]
          omega
      · rintro ⟨rfl | hmem, hlt⟩
        · exact .inl rfl
        · refine .inr ⟨hmem, ?_⟩
          rw [filter_cons_of_pos (by simpa using hr a hmem), length_cons] at hlt
          omega

theorem sorted_past (hlog : (log.map key).Nodup) :
    ((past key cursor log).insertionSort fun a b => key a ≤ key b).Pairwise
      fun a b => key a < key b := by
  have hperm := perm_insertionSort (fun a b => key a ≤ key b) (past key cursor log)
  have hle : ((past key cursor log).insertionSort fun a b => key a ≤ key b).Pairwise
      fun a b => key a ≤ key b :=
    haveI : Std.Total fun a b : α => key a ≤ key b := ⟨fun a b => le_total (key a) (key b)⟩
    haveI : IsTrans α fun a b => key a ≤ key b := ⟨fun _ _ _ => le_trans⟩
    pairwise_insertionSort _ _
  have hne : ((past key cursor log).insertionSort fun a b => key a ≤ key b).Pairwise
      fun a b => key a ≠ key b := by
    have hnodup : ((past key cursor log).map key).Nodup := hlog.sublist (filter_sublist.map key)
    exact pairwise_map.mp ((hperm.map key).nodup_iff.mpr hnodup)
  exact hle.imp₂ (fun _ _ h h' => lt_of_le_of_ne h h') hne

theorem mem_page_iff (hlog : (log.map key).Nodup) :
    a ∈ page key cursor limit log ↔ a ∈ past key cursor log ∧
      ((past key cursor log).filter fun b => key b < key a).length < limit := by
  have hperm := perm_insertionSort (fun a b => key a ≤ key b) (past key cursor log)
  rw [page, mem_take_iff (sorted_past hlog), hperm.mem_iff, (hperm.filter _).length_eq]

theorem mem_past_of_mem_page (h : a ∈ page key cursor limit log) : a ∈ past key cursor log :=
  (perm_insertionSort _ _).mem_iff.mp (mem_of_mem_take h)

theorem page_sorted (hlog : (log.map key).Nodup) :
    (page key cursor limit log).Pairwise fun a b => key a < key b :=
  (sorted_past hlog).sublist (take_sublist _ _)

theorem length_page_le : (page key cursor limit log).length ≤ limit := length_take_le _ _

theorem mem_page_of_le (hlog : (log.map key).Nodup) (hb : b ∈ page key cursor limit log)
    (ha : a ∈ past key cursor log) (hle : key a ≤ key b) : a ∈ page key cursor limit log := by
  rw [mem_page_iff hlog] at hb ⊢
  refine ⟨ha, lt_of_le_of_lt (List.Sublist.length_le ?_) hb.2⟩
  refine monotone_filter_right _ fun c hc => ?_
  simp only [decide_eq_true_eq] at hc ⊢
  exact lt_of_lt_of_le hc hle

theorem mem_page_of_short (hshort : (page key cursor limit log).length < limit)
    (ha : a ∈ past key cursor log) : a ∈ page key cursor limit log := by
  have hlen : ((past key cursor log).insertionSort fun a b => key a ≤ key b).length ≤ limit := by
    by_contra h
    rw [page, length_take] at hshort
    omega
  rw [page, take_of_length_le hlen, mem_insertionSort]
  exact ha

end Paging
