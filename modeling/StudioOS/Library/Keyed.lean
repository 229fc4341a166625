import Mathlib.Algebra.BigOperators.Group.List.Basic
import Mathlib.Data.List.Sort

/-!
# Keyed — tables whose rows have distinct keys

A table is a list of rows in no particular order, with a key that no two
rows share. `upsert` updates the row of a key or adds one; a table that
answers to a list of entries, one row for each, is that list of rows in
some order. `dedupe` keeps the first row of each key, in the order of the keys.
-/

namespace Keyed

open List

variable {α β κ : Type*} [DecidableEq κ] {key : α → κ}

/-- Updates the rows with the key `k`, or adds `new` when there is none. -/
def upsert (key : α → κ) (k : κ) (update : α → α) (new : α) (rows : List α) : List α :=
  if rows.any (fun row => key row = k) then
    rows.map fun row => if key row = k then update row else row
  else rows ++ [new]

section
variable {k : κ} {update : α → α} {new : α} {rows : List α}

theorem upsert_of_mem (h : k ∈ rows.map key) :
    upsert key k update new rows = rows.map fun row => if key row = k then update row else row := by
  obtain ⟨row, hrow, hk⟩ := mem_map.mp h
  exact if_pos (any_eq_true.mpr ⟨row, hrow, by simpa using hk⟩)

theorem upsert_of_not_mem (h : k ∉ rows.map key) :
    upsert key k update new rows = rows ++ [new] := by
  refine if_neg ?_
  intro hany
  obtain ⟨row, hrow, hk⟩ := any_eq_true.mp hany
  exact h (mem_map.mpr ⟨row, hrow, by simpa using hk⟩)

theorem mem_upsert_of_ne (hupdate : ∀ row, key (update row) = key row) (hnew : key new = k) {row}
    (hrow : key row ≠ k) : row ∈ upsert key k update new rows ↔ row ∈ rows := by
  by_cases h : k ∈ rows.map key
  · rw [upsert_of_mem h, mem_map]
    constructor
    · rintro ⟨old, hold, heq⟩
      by_cases hk : key old = k
      · rw [if_pos hk] at heq
        exact absurd (heq ▸ (hupdate old).trans hk) hrow
      · rw [if_neg hk] at heq
        exact heq ▸ hold
    · intro hmem
      exact ⟨row, hmem, if_neg hrow⟩
  · rw [upsert_of_not_mem h, mem_append, mem_singleton]
    constructor
    · rintro (hmem | rfl)
      · exact hmem
      · exact absurd hnew hrow
    · exact .inl

theorem mem_upsert_self {row} (hrow : row ∈ upsert key k update new rows) (hk : key row = k) :
    (∃ old ∈ rows, key old = k ∧ row = update old) ∨ (k ∉ rows.map key ∧ row = new) := by
  by_cases h : k ∈ rows.map key
  · rw [upsert_of_mem h, mem_map] at hrow
    obtain ⟨old, hold, rfl⟩ := hrow
    by_cases hkey : key old = k
    · exact .inl ⟨old, hold, hkey, if_pos hkey⟩
    · rw [if_neg hkey] at hk
      exact absurd hk hkey
  · rw [upsert_of_not_mem h, mem_append, mem_singleton] at hrow
    rcases hrow with hrow | rfl
    · exact absurd (mem_map.mpr ⟨row, hrow, hk⟩) h
    · exact .inr ⟨h, rfl⟩

theorem exists_mem_upsert (hupdate : ∀ row, key (update row) = key row) (hnew : key new = k) :
    ∃ row ∈ upsert key k update new rows, key row = k := by
  by_cases h : k ∈ rows.map key
  · obtain ⟨old, hold, hk⟩ := mem_map.mp h
    rw [upsert_of_mem h]
    exact ⟨update old, mem_map.mpr ⟨old, hold, if_pos hk⟩, (hupdate old).trans hk⟩
  · rw [upsert_of_not_mem h]
    exact ⟨new, by simp, hnew⟩

theorem exists_mem_upsert_of_mem {γ : Type*} {g : α → γ} (hg : ∀ row, g (update row) = g row)
    {row : α} (hrow : row ∈ rows) : ∃ row' ∈ upsert key k update new rows, g row' = g row := by
  by_cases h : k ∈ rows.map key
  · rw [upsert_of_mem h]
    refine ⟨if key row = k then update row else row, mem_map_of_mem hrow, ?_⟩
    split
    · exact hg row
    · rfl
  · rw [upsert_of_not_mem h]
    exact ⟨row, mem_append_left _ hrow, rfl⟩

theorem forall_mem_upsert {P : α → Prop} (hold : ∀ row ∈ rows, P row)
    (hupdate : ∀ row ∈ rows, P (update row)) (hnew : P new) :
    ∀ row ∈ upsert key k update new rows, P row := by
  intro row hrow
  by_cases h : k ∈ rows.map key
  · rw [upsert_of_mem h] at hrow
    obtain ⟨old, hmem, rfl⟩ := mem_map.mp hrow
    split
    · exact hupdate old hmem
    · exact hold old hmem
  · rw [upsert_of_not_mem h] at hrow
    rcases mem_append.mp hrow with hmem | hmem
    · exact hold row hmem
    · exact mem_singleton.mp hmem ▸ hnew

theorem map_upsert {γ : Type*} {g : α → γ} (hg : ∀ row, g (update row) = g row) :
    (upsert key k update new rows).map g =
      if k ∈ rows.map key then rows.map g else rows.map g ++ [g new] := by
  by_cases h : k ∈ rows.map key
  · rw [upsert_of_mem h, if_pos h, map_map]
    apply map_congr_left
    intro row _
    show g (if key row = k then update row else row) = g row
    split
    · exact hg row
    · rfl
  · rw [upsert_of_not_mem h, if_neg h, map_append]
    rfl

theorem nodup_upsert (hupdate : ∀ row, key (update row) = key row) (hnew : key new = k)
    (h : (rows.map key).Nodup) : ((upsert key k update new rows).map key).Nodup := by
  rw [map_upsert hupdate]
  split
  · exact h
  rename_i hk
  rw [nodup_append]
  refine ⟨h, nodup_singleton _, ?_⟩
  rintro other hother other' hother' rfl
  obtain rfl := mem_singleton.mp hother'
  exact hk (hnew ▸ hother)

theorem sum_upsert {M : Type*} [AddCommMonoid M] {amount : α → M} {more}
    (hnodup : (rows.map key).Nodup) (hupdate : ∀ row, amount (update row) = amount row + more)
    (hnew : amount new = more) :
    ((upsert key k update new rows).map amount).sum = (rows.map amount).sum + more := by
  by_cases h : k ∈ rows.map key
  · rw [upsert_of_mem h]
    induction rows with
    | nil => simp at h
    | cons row rows ih =>
      rw [map_cons, nodup_cons] at hnodup
      simp only [map_cons, sum_cons]
      by_cases hk : key row = k
      · -- no other row has the key
        have hothers : rows.map (fun row => if key row = k then update row else row) = rows := by
          refine (map_congr_left ?_).trans rows.map_id
          intro other hother
          refine if_neg fun heq => hnodup.1 ?_
          rw [hk, ← heq]
          exact mem_map_of_mem hother
        rw [hothers, if_pos hk, hupdate]
        exact add_right_comm _ _ _
      · rw [if_neg hk, ih hnodup.2 (mem_of_ne_of_mem (Ne.symm hk) h), add_assoc]
  · rw [upsert_of_not_mem h, map_append, sum_append]
    simp [hnew]

end

omit [DecidableEq κ] in
theorem eq_of_key {rows : List α} (h : (rows.map key).Nodup) {a b} (ha : a ∈ rows) (hb : b ∈ rows)
    (hk : key a = key b) : a = b :=
  inj_on_of_nodup_map h ha hb hk

theorem find?_of_mem (key : α → κ) {rows : List α} (h : (rows.map key).Nodup) {row : α}
    (hrow : row ∈ rows) : rows.find? (fun other => key other = key row) = some row := by
  cases hfind : rows.find? (fun other => key other = key row) with
  | none =>
    have := List.find?_eq_none.mp hfind row hrow
    simp at this
  | some other =>
    have hk : key other = key row := by simpa using List.find?_some hfind
    rw [eq_of_key h (List.mem_of_find?_eq_some hfind) hrow hk]

omit [DecidableEq κ] in
/-- A table with a row for every entry and no other keys is a list of rows
along the entries, in some order. -/
theorem exists_perm_forall₂ (key : α → κ) (keyOf : β → κ) {R : β → α → Prop} {entries : List β}
    {rows : List α} (hentries : (entries.map keyOf).Nodup) (hrows : (rows.map key).Nodup)
    (hkey : ∀ b a, R b a → key a = keyOf b) (hall : ∀ b ∈ entries, ∃ a ∈ rows, R b a)
    (hno : ∀ a ∈ rows, key a ∈ entries.map keyOf) :
    ∃ laid, rows.Perm laid ∧ List.Forall₂ R entries laid := by
  induction entries generalizing rows with
  | nil =>
    have hnil : rows = [] := by
      apply eq_nil_iff_forall_not_mem.mpr
      intro a ha
      simpa using hno a ha
    exact ⟨[], by rw [hnil], .nil⟩
  | cons b entries ih =>
    obtain ⟨a, ha, hR⟩ := hall b (by simp)
    obtain ⟨before, after, rfl⟩ := append_of_mem ha
    have hperm : (before ++ a :: after).Perm (a :: (before ++ after)) := perm_middle
    have hnodup := (hperm.map key).nodup_iff.mp hrows
    rw [map_cons, nodup_cons] at hnodup hentries
    have hall' : ∀ b' ∈ entries, ∃ a' ∈ before ++ after, R b' a' := by
      intro b' hb'
      obtain ⟨a', ha', hR'⟩ := hall b' (.tail _ hb')
      refine ⟨a', ?_, hR'⟩
      rcases mem_cons.mp (hperm.mem_iff.mp ha') with heq | hmem
      · have : keyOf b = keyOf b' := (hkey b a hR).symm.trans (heq ▸ hkey b' a' hR')
        exact absurd (this ▸ mem_map_of_mem hb') hentries.1
      · exact hmem
    have hno' : ∀ a' ∈ before ++ after, key a' ∈ entries.map keyOf := by
      intro a' ha'
      rcases mem_cons.mp (hno a' (hperm.mem_iff.mpr (.tail _ ha'))) with
        heq | hmem
      · have : key a = key a' := (hkey b a hR).trans heq.symm
        exact absurd (this ▸ mem_map_of_mem ha') hnodup.1
      · exact hmem
    obtain ⟨laid, hlaid, hforall⟩ := ih hentries.2 hnodup.2 hall' hno'
    exact ⟨a :: laid, hperm.trans (hlaid.cons a), .cons hR hforall⟩

omit [DecidableEq κ] in
theorem length_filter_le_one {R : α → α → Prop} {p : α → Bool} {rows : List α}
    (h : rows.Pairwise R) (hp : ∀ a ∈ rows, ∀ b ∈ rows, p a → p b → ¬ R a b) :
    (rows.filter p).length ≤ 1 := by
  have hfilter := h.filter p
  match hrows : rows.filter p with
  | [] => simp
  | [_] => simp
  | a :: b :: rest =>
    rw [hrows] at hfilter
    have ha : a ∈ rows.filter p := by rw [hrows]; simp
    have hb : b ∈ rows.filter p := by rw [hrows]; simp
    have hR := (pairwise_cons.mp hfilter).1 b (by simp)
    obtain ⟨ha, hpa⟩ := mem_filter.mp ha
    obtain ⟨hb, hpb⟩ := mem_filter.mp hb
    exact absurd hR (hp a ha b hb hpa hpb)

omit [DecidableEq κ] in
theorem eq_of_sorted {le lt : α → α → Prop} {rows laid : List α} (hperm : rows.Perm laid)
    (hrows : rows.Pairwise le) (hlaid : laid.Pairwise lt)
    (hlt : ∀ a ∈ laid, ∀ b ∈ laid, lt a b → le a b ∧ ¬ le b a) : rows = laid := by
  have hsorted : laid.Pairwise le :=
    List.Pairwise.imp_of_mem (fun ha hb h => (hlt _ ha _ hb h).1) hlaid
  refine List.Perm.eq_of_pairwise ?_ hrows hsorted hperm
  intro a b ha hb hab hba
  obtain ⟨i, hi, rfl⟩ := mem_iff_getElem.mp (hperm.mem_iff.mp ha)
  obtain ⟨j, hj, rfl⟩ := mem_iff_getElem.mp hb
  have hlt' : ∀ {i j : Nat} (hi : i < laid.length) (hj : j < laid.length), i < j →
      ¬ le laid[j] laid[i] := by
    intro i j hi hj hij
    have hstrict := pairwise_iff_getElem.mp hlaid i j hi hj hij
    exact (hlt _ (getElem_mem hi) _ (getElem_mem hj) hstrict).2
  rcases Nat.lt_trichotomy i j with hij | rfl | hij
  · exact absurd hba (hlt' hi hj hij)
  · rfl
  · exact absurd hab (hlt' hj hi hij)

omit [DecidableEq κ] in
theorem map_eq_of_forall₂ {γ : Type*} {R : β → α → Prop} {f : β → γ} {g : α → γ}
    {entries : List β} {rows : List α} (h : List.Forall₂ R entries rows)
    (hR : ∀ entry ∈ entries, ∀ row ∈ rows, R entry row → g row = f entry) :
    rows.map g = entries.map f := by
  induction h with
  | nil => rfl
  | cons hab _ ih =>
    rw [map_cons, map_cons, hR _ mem_cons_self _ mem_cons_self hab, ih]
    intro entry hentry row hrow
    exact hR entry (.tail _ hentry) row (.tail _ hrow)

end Keyed

namespace Deduped

open List

variable {α κ : Type*} [DecidableEq κ]

def firsts (key : α → κ) (rows : List α) : List α :=
  rows.foldl (fun seen row => if key row ∈ seen.map key then seen else seen ++ [row]) []

section Firsts

variable (key : α → κ) (rows : List α)

theorem foldl_firsts (seen) (hseen : (seen.map key).Nodup) :
    let kept := rows.foldl
      (fun seen row => if key row ∈ seen.map key then seen else seen ++ [row]) seen
    (kept.map key).Nodup ∧ (∀ row ∈ kept, row ∈ seen ++ rows) ∧
      ∀ row ∈ seen ++ rows, key row ∈ kept.map key := by
  induction rows generalizing seen with
  | nil =>
    refine ⟨hseen, fun row hrow => by simpa using hrow, ?_⟩
    intro row hrow
    exact mem_map_of_mem (by simpa using hrow)
  | cons row rows ih =>
    by_cases h : key row ∈ seen.map key
    · obtain ⟨hnodup, hmem, hkeys⟩ := ih seen hseen
      simp only [foldl_cons, if_pos h]
      refine ⟨hnodup, fun other hother => ?_, fun other hother => ?_⟩
      · have := hmem other hother
        simp only [mem_append, mem_cons] at this ⊢
        tauto
      simp only [mem_append, mem_cons] at hother
      rcases hother with hold | rfl | hrest
      · exact hkeys other (mem_append_left _ hold)
      · obtain ⟨old, hold, heq⟩ := mem_map.mp h
        rw [← heq]
        exact hkeys old (mem_append_left _ hold)
      · exact hkeys other (mem_append_right _ hrest)
    · have hnew : ((seen ++ [row]).map key).Nodup := by
        rw [map_append, map_cons, map_nil, nodup_append_comm]
        exact nodup_cons.mpr ⟨h, hseen⟩
      obtain ⟨hnodup, hmem, hkeys⟩ := ih (seen ++ [row]) hnew
      simp only [foldl_cons, if_neg h]
      refine ⟨hnodup, fun other hother => ?_, fun other hother => ?_⟩
      · simpa using hmem other hother
      · exact hkeys other (by simpa using hother)

theorem firsts_nodup : ((firsts key rows).map key).Nodup := (foldl_firsts key rows [] nodup_nil).1

variable {key rows}

theorem mem_of_mem_firsts {row} (h : row ∈ firsts key rows) : row ∈ rows := by
  simpa using (foldl_firsts key rows [] nodup_nil).2.1 row h

theorem key_mem_firsts {row} (h : row ∈ rows) : key row ∈ (firsts key rows).map key :=
  (foldl_firsts key rows [] nodup_nil).2.2 row (by simpa using h)

end Firsts

variable [LinearOrder κ]

/-- The first row of each key, in the order of the keys. -/
def dedupe (key : α → κ) (rows : List α) : List α :=
  (firsts key rows).insertionSort fun a b => key a ≤ key b

variable {key : α → κ} {rows : List α} {row : α}

theorem mem_dedupe : row ∈ dedupe key rows ↔ row ∈ firsts key rows := mem_insertionSort _

theorem dedupe_nodup (key : α → κ) (rows : List α) : ((dedupe key rows).map key).Nodup :=
  ((perm_insertionSort _ _).map key).nodup_iff.mpr (firsts_nodup key rows)

end Deduped
