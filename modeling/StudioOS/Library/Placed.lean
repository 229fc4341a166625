import Mathlib.Data.List.Nodup
import Mathlib.Data.List.Perm.Basic

/-!
# Placed — rows numbered from zero

The rows of a list are PLACED when their positions are the numbers below
the length, each once. A row put behind them, a new numbering along a
list of ids and a numbering along entries keep it.
-/

namespace Rows

open List

variable {α β ι : Type*} {position : α → Nat}

def Placed (position : α → Nat) (rows : List α) : Prop :=
  (rows.map position).Perm (List.range rows.length)

theorem Placed.nil : Placed position [] := .refl _

variable {rows : List α} {ids : List ι} {entries : List β}

theorem Placed.perm {rows'} (h : Placed position rows) (hperm : rows.Perm rows') :
    Placed position rows' := by
  have hmap := (hperm.map position).symm.trans h
  rw [hperm.length_eq] at hmap
  exact hmap

theorem Placed.append {row} (h : Placed position rows)
    (hrow : position row = rows.length) : Placed position (rows ++ [row]) := by
  show ((rows ++ [row]).map position).Perm (List.range (rows ++ [row]).length)
  rw [map_append, map_singleton, hrow, length_append, length_singleton, range_succ]
  exact h.append_right _

theorem Placed.map {γ : Type*} {position' : γ → Nat} {f : α → γ}
    (h : Placed position rows) (hf : ∀ row ∈ rows, position' (f row) = position row) :
    Placed position' (rows.map f) := by
  have hmap : (rows.map f).map position' = rows.map position := by
    rw [map_map]
    exact map_congr_left hf
  show ((rows.map f).map position').Perm (List.range (rows.map f).length)
  rw [hmap, length_map]
  exact h

theorem map_idxOf [DecidableEq ι] (h : ids.Nodup) :
    ids.map (ids.idxOf ·) = List.range ids.length := by
  apply ext_getElem (by simp)
  intro i hi _
  simp [h.idxOf_getElem i (by simpa using hi)]

theorem Placed.of_idxOf [DecidableEq ι] (idOf) (hids : (rows.map idOf).Perm ids)
    (hnodup : ids.Nodup)
    (hrows : ∀ row ∈ rows, position row = ids.idxOf (idOf row)) : Placed position rows := by
  have hmap : rows.map position = (rows.map idOf).map (ids.idxOf ·) := by
    rw [map_map]
    exact map_congr_left hrows
  have hlength : rows.length = ids.length := by simpa using hids.length_eq
  show (rows.map position).Perm (List.range rows.length)
  rw [hmap, hlength, ← map_idxOf hnodup]
  exact hids.map _

theorem positions_of_zipIdx {R} (h : List.Forall₂ R entries.zipIdx rows)
    (hR : ∀ entry row, R entry row → position row = entry.2) :
    rows.map position = List.range rows.length := by
  have hmap : ∀ {numbered : List (β × Nat)} {rows : List α}, List.Forall₂ R numbered rows →
      rows.map position = numbered.map (·.2) := by
    intro numbered rows h
    induction h with
    | nil => rfl
    | cons hab _ ih => simp [hR _ _ hab, ih]
  have hlength : rows.length = entries.length := by
    rw [← h.length_eq, length_zipIdx]
  rw [hmap h, hlength, range_eq_range', zipIdx_map_snd]

theorem Placed.of_zipIdx {R} (h : List.Forall₂ R entries.zipIdx rows)
    (hR : ∀ entry row, R entry row → position row = entry.2) : Placed position rows :=
  .of_eq (positions_of_zipIdx h hR)

theorem sorted_of_zipIdx {R} (h : List.Forall₂ R entries.zipIdx rows)
    (hR : ∀ entry row, R entry row → position row = entry.2) :
    rows.Pairwise fun a b => position a < position b := by
  have hlt : (rows.map position).Pairwise (· < ·) := by
    rw [positions_of_zipIdx h hR]
    exact pairwise_lt_range
  exact pairwise_map.mp hlt

end Rows
