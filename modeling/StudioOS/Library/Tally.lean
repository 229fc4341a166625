import Mathlib.Data.List.Dedup
import Mathlib.Data.Prod.Lex
import StudioOS.Library.Keyed

/-!
# Tally — dictionaries that merge what falls on one key

`table.setdefault(k, zero(k)).merge(b)`, item after item: a table of key and
value in the order in which the keys came first.
-/

namespace Tally

variable {κ α β : Type*}

/-- A table that maps each key at most once, and as `f` does. -/
structure Denotes (table : List (κ × α)) (f : κ → Option α) : Prop where
  nodup : (table.map Prod.fst).Nodup
  mem : ∀ k a, (k, a) ∈ table ↔ f k = some a

namespace Denotes

variable {table : List (κ × α)}

theorem nil : Denotes ([] : List (κ × α)) fun _ => none := ⟨List.nodup_nil, by simp⟩

theorem mem_keys {f} (h : Denotes table f) (k) : k ∈ table.map Prod.fst ↔ (f k).isSome := by
  simp only [List.mem_map, Prod.exists, exists_and_right, exists_eq_right, h.mem,
    Option.isSome_iff_exists]

theorem perm {table' f} (h : Denotes table f) (h' : Denotes table' f) : table.Perm table' := by
  refine (List.perm_ext_iff_of_nodup h.nodup.of_map h'.nodup.of_map).mpr ?_
  intro row
  rw [h.mem row.1 row.2, h'.mem row.1 row.2]

theorem ofKeys {ks : List κ} (hks : ks.Nodup) (value : κ → α) [DecidableEq κ] :
    Denotes (ks.map fun k => (k, value k)) fun k => if k ∈ ks then some (value k) else none := by
  refine ⟨?_, ?_⟩
  · rw [List.map_map, show Prod.fst ∘ (fun k => (k, value k)) = id from rfl, List.map_id]
    exact hks
  · intro k a
    by_cases hk : k ∈ ks <;> simp [hk]

theorem insertionSort_eq [LinearOrder κ] {ks : List κ} {value : κ → α}
    (h : Denotes table fun k => if k ∈ ks then some (value k) else none) :
    table.insertionSort (fun a b => a.1 ≤ b.1) =
      (ks.dedup.insertionSort (· ≤ ·)).map fun k => (k, value k) := by
  let le : κ × α → κ × α → Prop := fun a b => a.1 ≤ b.1
  have htotal : Std.Total le := ⟨fun a b => le_total a.1 b.1⟩
  have htrans : IsTrans _ le := ⟨fun a b c => le_trans⟩
  have hsort := List.perm_insertionSort (· ≤ ·) ks.dedup
  have hkeys : Denotes ((ks.dedup.insertionSort (· ≤ ·)).map fun k => (k, value k))
      fun k => if k ∈ ks then some (value k) else none := by
    have hof := ofKeys (hsort.nodup_iff.mpr (List.nodup_dedup ks)) value
    refine ⟨hof.nodup, ?_⟩
    intro k a
    simp [hof.mem, hsort.mem_iff]
  have hperm := (List.perm_insertionSort le table).trans (h.perm hkeys)
  refine hperm.eq_of_pairwise ?_ (List.pairwise_insertionSort le _) ?_
  · intro a b ha hb hab hba
    have ha' := (List.perm_insertionSort le _).mem_iff.mp ha
    exact Keyed.eq_of_key h.nodup ha' ((h.perm hkeys).mem_iff.mpr hb) (le_antisymm hab hba)
  · rw [List.pairwise_map]
    exact List.pairwise_insertionSort (· ≤ ·) ks.dedup

end Denotes

variable [DecidableEq κ]

section
variable (zero : κ → α) (merge : α → β → α)

/-- `table.setdefault(k, zero(k)).merge(b)`. -/
def add (table : List (κ × α)) (item : κ × β) : List (κ × α) :=
  Keyed.upsert Prod.fst item.1 (fun row => (row.1, merge row.2 item.2))
    (item.1, merge (zero item.1) item.2) table

def addAll (table : List (κ × α)) (items : List (κ × β)) : List (κ × α) :=
  items.foldl (add zero merge) table

/-- What is merged for one key, in order. -/
def itemsOf (k : κ) (items : List (κ × β)) : List β :=
  (items.filter fun item => item.1 = k).map Prod.snd

/-- A value that may be there yet, with an item merged into it. -/
def mergeInto (k : κ) (a : Option α) (b : β) : Option α :=
  some (merge (a.getD (zero k)) b)

end

variable {zero : κ → α} {merge : α → β → α} {table : List (κ × α)} {k : κ}

theorem Denotes.add {f} (h : Denotes table f) (item) : Denotes (add zero merge table item)
      (Function.update f item.1 (mergeInto zero merge item.1 (f item.1) item.2)) := by
  obtain ⟨k, b⟩ := item
  refine ⟨Keyed.nodup_upsert (fun _ => rfl) rfl h.nodup, ?_⟩
  intro k' a
  by_cases hk : k' = k
  · subst hk
    rw [Function.update_self]
    by_cases hmem : k' ∈ table.map Prod.fst
    · obtain ⟨a₀, ha₀⟩ := Option.isSome_iff_exists.mp ((h.mem_keys k').mp hmem)
      rw [Tally.add, Keyed.upsert_of_mem hmem, List.mem_map, mergeInto, ha₀, Option.getD_some]
      constructor
      · rintro ⟨row, hrow, heq⟩
        by_cases hfst : row.1 = k'
        · have hval : f k' = some row.2 := (h.mem k' row.2).mp (hfst ▸ hrow)
          rw [if_pos hfst] at heq
          rw [← (Prod.mk.inj heq).2, Option.some.inj (ha₀.symm.trans hval)]
        · rw [if_neg hfst] at heq
          exact absurd (by rw [heq]) hfst
      · intro heq
        exact ⟨(k', a₀), (h.mem k' a₀).mpr ha₀, by simpa using heq⟩
    · have hnone : f k' = none := by
        simpa using mt (h.mem_keys k').mpr hmem
      rw [Tally.add, Keyed.upsert_of_not_mem hmem, mergeInto, hnone, Option.getD_none]
      have hnot : (k', a) ∉ table := fun hin => hmem (List.mem_map_of_mem hin)
      simp [hnot, eq_comm]
  · have hne : (k', a).1 ≠ k := hk
    rw [Function.update_of_ne hk, ← h.mem]
    refine Keyed.mem_upsert_of_ne ?_ ?_ hne
    · intro row
      rfl
    · rfl

theorem Denotes.addAll {f} (h : Denotes table f) (items) :
    Denotes (addAll zero merge table items)
      fun k => (itemsOf k items).foldl (mergeInto zero merge k) (f k) := by
  induction items generalizing table f with
  | nil => exact h
  | cons item items ih =>
    have hadd : Denotes (Tally.add zero merge table item) _ := h.add item
    have hstep := ih hadd
    refine ⟨hstep.nodup, ?_⟩
    intro k a
    rw [show Tally.addAll zero merge table (item :: items) =
      Tally.addAll zero merge (Tally.add zero merge table item) items from rfl, hstep.mem]
    by_cases hk : k = item.1
    · subst hk
      simp [itemsOf]
    · have hne : ¬ item.1 = k := fun heq => hk heq.symm
      simp [itemsOf, hk, hne]

omit [DecidableEq κ] in
theorem foldl_mergeInto (a) (items : List β) :
    items.foldl (mergeInto zero merge k) (some a) = some (items.foldl merge a) := by
  induction items generalizing a with
  | nil => rfl
  | cons b items ih => exact ih _

omit [DecidableEq κ] in
theorem foldl_mergeInto_none (items) : items.foldl (mergeInto zero merge k) none =
      if items = [] then none else some (items.foldl merge (zero k)) := by
  cases items with
  | nil => rfl
  | cons b items =>
    rw [if_neg (List.cons_ne_nil _ _)]
    exact foldl_mergeInto _ _

theorem itemsOf_eq_nil {items : List (κ × β)} : itemsOf k items = [] ↔ k ∉ items.map Prod.fst := by
  constructor
  · intro h hmem
    obtain ⟨item, hitem, rfl⟩ := List.mem_map.mp hmem
    have hin : item.2 ∈ itemsOf item.1 items :=
      List.mem_map_of_mem (List.mem_filter.mpr ⟨hitem, by simp⟩)
    rw [h] at hin
    cases hin
  · intro h
    rw [itemsOf, List.map_eq_nil_iff, List.filter_eq_nil_iff]
    intro item hitem hk
    exact h (of_decide_eq_true hk ▸ List.mem_map_of_mem hitem)

theorem Denotes.itemsOf {f} (h : Denotes table f) (k) : itemsOf k table = (f k).toList := by
  have hnodup : (table.filter fun row => row.1 = k).Nodup := h.nodup.of_map.filter _
  cases hf : f k with
  | none =>
    rw [Tally.itemsOf_eq_nil.mpr]
    · rfl
    · rw [h.mem_keys, hf]
      simp
  | some a =>
    have hperm : (table.filter fun row => row.1 = k).Perm [(k, a)] := by
      refine (List.perm_ext_iff_of_nodup hnodup (List.nodup_singleton _)).mpr ?_
      intro row
      obtain ⟨k', a'⟩ := row
      rw [List.mem_filter, h.mem, List.mem_singleton, Prod.mk.injEq]
      constructor
      · rintro ⟨hf', hk⟩
        have hk' : k' = k := by simpa using hk
        subst hk'
        exact ⟨rfl, Option.some.inj (hf'.symm.trans hf)⟩
      · rintro ⟨rfl, rfl⟩
        exact ⟨hf, by simp⟩
    rw [Tally.itemsOf, List.perm_singleton.mp hperm]
    rfl

theorem Denotes.mergeTable {f table' g} (h : Denotes table f)
    (h' : Denotes table' g) : Denotes (Tally.addAll zero merge table table')
      fun k => (g k).elim (f k) fun b => some (merge ((f k).getD (zero k)) b) := by
  have hall : Denotes (Tally.addAll zero merge table table') _ := h.addAll table'
  refine ⟨hall.nodup, ?_⟩
  intro k a
  rw [hall.mem, h'.itemsOf]
  cases g k with
  | none | some => rfl

/-- Two tables that have a value for each of their keys, merged: a key that a
table lacks counts as its zero. -/
theorem Denotes.mergeKeys {table' : List (κ × β)} {ks ks' : List κ} {v w : κ → α} {v' : κ → β}
    (h : Denotes table fun k => if k ∈ ks then some (v k) else none)
    (h' : Denotes table' fun k => if k ∈ ks' then some (v' k) else none)
    (hzero : ∀ k, k ∉ ks → v k = zero k) (hmerge : ∀ k, merge (v k) (v' k) = w k)
    (hleft : ∀ k, k ∉ ks' → w k = v k) : Denotes (Tally.addAll zero merge table table')
      fun k => if k ∈ ks ++ ks' then some (w k) else none := by
  have hboth : Denotes (Tally.addAll zero merge table table') _ := h.mergeTable h'
  refine ⟨hboth.nodup, ?_⟩
  intro k a
  rw [hboth.mem]
  by_cases hk' : k ∈ ks'
  · have hgetD : (if k ∈ ks then some (v k) else none).getD (zero k) = v k := by
      by_cases hk : k ∈ ks
      · rw [if_pos hk, Option.getD_some]
      · rw [if_neg hk, Option.getD_none, hzero k hk]
    rw [if_pos hk', if_pos (List.mem_append_right _ hk'), Option.elim_some, hgetD, hmerge]
  · by_cases hk : k ∈ ks
    · rw [if_neg hk', if_pos hk, if_pos (List.mem_append_left _ hk), Option.elim_none, hleft k hk']
    · rw [if_neg hk', if_neg hk, Option.elim_none,
        if_neg (mt List.mem_append.mp (not_or.mpr ⟨hk, hk'⟩))]

theorem denotes_tally {ι : Type*} (l : List ι) (key value) :
    Denotes (addAll zero merge [] (l.map fun i => (key i, value i))) fun k => if k ∈ l.map key then
        some (((l.filter fun i => key i = k).map value).foldl merge (zero k)) else none := by
  have hall : Denotes (Tally.addAll zero merge [] (l.map fun i => (key i, value i))) _ :=
    Denotes.nil.addAll (l.map fun i => (key i, value i))
  refine ⟨hall.nodup, ?_⟩
  intro k a
  have hkeys : (l.map fun i => (key i, value i)).map Prod.fst = l.map key := by
    rw [List.map_map]
    rfl
  have hitems : itemsOf k (l.map fun i => (key i, value i)) =
      (l.filter fun i => key i = k).map value := by
    rw [itemsOf, List.filter_map, List.map_map]
    rfl
  rw [hall.mem, foldl_mergeInto_none, hitems]
  by_cases hk : k ∈ l.map key
  · rw [if_pos hk, if_neg]
    rw [← hitems, itemsOf_eq_nil, hkeys]
    exact not_not.mpr hk
  · rw [if_neg hk, if_pos]
    rw [← hitems, itemsOf_eq_nil, hkeys]
    exact hk

theorem flatMap_filter_perm {ι : Type*} {l : List ι} {key : ι → κ} {ks : List κ} (hks : ks.Nodup)
    (hall : ∀ i ∈ l, key i ∈ ks) : (ks.flatMap fun k => l.filter fun i => key i = k).Perm l := by
  induction ks generalizing l with
  | nil =>
    cases l with
    | nil => exact .nil
    | cons i l => exact absurd (hall i List.mem_cons_self) List.not_mem_nil
  | cons k ks ih =>
    obtain ⟨hk, hks⟩ := List.nodup_cons.mp hks
    have hrest : (ks.flatMap fun k' =>
        (l.filter fun i => !decide (key i = k)).filter fun i => key i = k').Perm
          (l.filter fun i => !decide (key i = k)) := by
      refine ih hks ?_
      intro i hi
      obtain ⟨hi, hne⟩ := List.mem_filter.mp hi
      refine (List.mem_cons.mp (hall i hi)).resolve_left ?_
      simpa using hne
    have hsame : (ks.flatMap fun k' =>
        (l.filter fun i => !decide (key i = k)).filter fun i => key i = k') =
          ks.flatMap fun k' => l.filter fun i => key i = k' := by
      refine List.flatMap_congr ?_
      intro k' hk'
      have hne : k' ≠ k := fun heq => hk (heq ▸ hk')
      rw [List.filter_filter]
      refine List.filter_congr ?_
      intro i _
      by_cases hi : key i = k'
      · simp [hi, hne]
      · simp [hi]
    rw [hsame] at hrest
    rw [List.flatMap_cons]
    exact (List.Perm.append_left _ hrest).trans (List.filter_append_perm _ _)

end Tally
