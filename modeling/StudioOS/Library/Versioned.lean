import Mathlib.Data.List.Infix
import Mathlib.Data.List.Nodup

/-!
# Versioned — one value under optimistic concurrency

A cell holds a value and a version. A caller LOADS a copy of both; later it
WRITES its call's effect on the copy and steps the version, or it KEEPS the
copy when the call would change nothing.
-/

namespace Versioned

open List

variable {ι κ α : Type*} (effect : κ → α → α)

/-- `written` lists the callers that wrote, each with the version it
wrote, oldest first; `order` is the order that explains the value. -/
structure Cell (ι κ α : Type*) where
  version : Int
  value : α
  copies : ι → Option (Int × α)
  written : List (ι × Int)
  order : List (ι × κ)

/-- The calls, applied one after another. -/
def applied (start : α) (order : List (ι × κ)) : α :=
  order.foldl (fun a entry => effect entry.2 a) start

@[simp] theorem applied_nil (start) : applied effect start ([] : List (ι × κ)) = start := rfl

@[simp] theorem applied_cons (start : α) (entry : ι × κ) (order) :
    applied effect start (entry :: order) = applied effect (effect entry.2 start) order := rfl

@[simp] theorem applied_append (start : α) (before after : List (ι × κ)) :
    applied effect start (before ++ after) = applied effect (applied effect start before) after :=
  foldl_append

/-- A cell nobody has loaded. -/
def Cell.fresh (version : Int) (value : α) : Cell ι κ α :=
  { version := version, value := value, copies := fun _ => none, written := [], order := [] }

def Cell.load [DecidableEq ι] (cell : Cell ι κ α) (i : ι) : Cell ι κ α :=
  { cell with copies := Function.update cell.copies i (some (cell.version, cell.value)) }

def Cell.write (cell : Cell ι κ α) (i : ι) (call : κ) : Cell ι κ α :=
  { cell with
    version := cell.version + 1
    value := effect call cell.value
    written := cell.written ++ [(i, cell.version + 1)]
    order := cell.order ++ [(i, call)] }

/-- A call that changes nothing, put between two parts of the order. -/
def Cell.keep (cell : Cell ι κ α) (before after : List (ι × κ)) (i : ι) (call : κ) : Cell ι κ α :=
  { cell with order := before ++ (i, call) :: after }

/-! ## The invariant -/

/-- A copy is never ahead of the cell, is the cell's value when it is
not behind, and was the value at some point of the order. -/
structure Cell.CopyOk (start : α) (cell : Cell ι κ α) (version : Int) (value : α) : Prop where
  notAhead : version ≤ cell.version
  current : version = cell.version → value = cell.value
  point : ∃ before, before <+: cell.order ∧ applied effect start before = value

/-- `first` is the version the cell began with. -/
structure Cell.Inv (first : Int) (start : α) (cell : Cell ι κ α) : Prop where
  increasing : (first :: cell.written.map (·.2)).Pairwise (· < ·)
  below : ∀ version ∈ first :: cell.written.map (·.2), version ≤ cell.version
  last : (first :: cell.written.map (·.2)).getLast? = some cell.version
  copies : ∀ i version value, cell.copies i = some (version, value) →
    cell.CopyOk effect start version value
  serial : applied effect start cell.order = cell.value

variable {effect : κ → α → α} {first : Int} {start : α} {cell : Cell ι κ α}

theorem Cell.Inv.fresh (first start) :
    (Cell.fresh first start : Cell ι κ α).Inv effect first start where
  increasing := pairwise_singleton _ _
  below := by
    intro version hversion
    obtain rfl := mem_singleton.mp hversion
    exact Int.le_refl _
  last := rfl
  copies := by intro i v a hcopy; cases hcopy
  serial := rfl

theorem Cell.Inv.load [DecidableEq ι] (h : cell.Inv effect first start) (i) :
    (cell.load i).Inv effect first start where
  increasing := h.increasing
  below := h.below
  last := h.last
  copies := by
    intro j version value hcopy
    by_cases hji : j = i
    · subst hji
      have hself : (cell.load j).copies j = some (cell.version, cell.value) :=
        Function.update_self ..
      obtain ⟨rfl, rfl⟩ := Prod.mk.inj (Option.some.inj (hself.symm.trans hcopy))
      exact ⟨Int.le_refl _, fun _ => rfl, cell.order, prefix_refl _, h.serial⟩
    · have hother : (cell.load i).copies j = cell.copies j := Function.update_of_ne hji ..
      obtain ⟨hahead, hcurrent, hpoint⟩ := h.copies j version value (hother.symm.trans hcopy)
      exact ⟨hahead, hcurrent, hpoint⟩
  serial := h.serial

theorem Cell.Inv.write (h : cell.Inv effect first start) (i call) :
    (cell.write effect i call).Inv effect first start where
  increasing := by
    show (first :: (cell.written ++ [(i, cell.version + 1)]).map (·.2)).Pairwise (· < ·)
    rw [map_append, ← cons_append, pairwise_append]
    refine ⟨h.increasing, pairwise_singleton _ _, ?_⟩
    intro v hv w hw
    obtain rfl := mem_singleton.mp hw
    have hle := h.below v hv
    show v < cell.version + 1
    omega
  below := by
    intro version hversion
    show version ≤ cell.version + 1
    have hsplit : version ∈ (first :: cell.written.map (·.2)) ++ [cell.version + 1] := by
      simpa [Cell.write] using hversion
    rcases mem_append.mp hsplit with hold | hnew
    · have hle := h.below version hold
      omega
    · obtain rfl := mem_singleton.mp hnew
      exact Int.le_refl _
  last := by
    show (first :: (cell.written ++ [(i, cell.version + 1)]).map (·.2)).getLast? = _
    rw [map_append, ← cons_append]
    exact List.getLast?_concat
  copies := by
    intro j version value hcopy
    obtain ⟨hahead, -, before, hbefore, happlied⟩ := h.copies j version value hcopy
    refine ⟨?_, ?_, before, hbefore.trans (prefix_append _ _), happlied⟩
    · show version ≤ cell.version + 1
      omega
    · intro hversion
      have hsame : version = cell.version + 1 := hversion
      omega
  serial := by
    show applied effect start (cell.order ++ [(i, call)]) = effect call cell.value
    rw [applied_append, h.serial, applied_cons, applied_nil]

/-- A call that changes nothing at some point of the order may be put
there. -/
theorem Cell.Inv.keep {call} (h : cell.Inv effect first start) {before after}
    (horder : cell.order = before ++ after) (i)
    (hkeeps : effect call (applied effect start before) = applied effect start before) :
    (cell.keep before after i call).Inv effect first start where
  increasing := h.increasing
  below := h.below
  last := h.last
  copies := by
    intro j version value hcopy
    obtain ⟨hahead, hcurrent, point, hpoint, happlied⟩ := h.copies j version value hcopy
    refine ⟨hahead, hcurrent, ?_⟩
    rcases prefix_or_prefix_of_prefix hpoint ⟨after, horder.symm⟩ with hle | ⟨rest, rfl⟩
    · exact ⟨point, hle.trans (prefix_append _ _), happlied⟩
    -- The copy was taken later: the call comes to stand before it.
    refine ⟨before ++ (i, call) :: rest, ?_, ?_⟩
    · rw [horder, prefix_append_right_inj] at hpoint
      show before ++ (i, call) :: rest <+: before ++ (i, call) :: after
      rw [prefix_append_right_inj, prefix_cons_inj]
      exact hpoint
    · rw [applied_append, applied_cons, hkeeps, ← applied_append]
      exact happlied
  serial := by
    show applied effect start (before ++ (i, call) :: after) = cell.value
    rw [applied_append, applied_cons, hkeeps, ← applied_append, ← horder]
    exact h.serial

theorem Cell.Inv.writer_unique {i} (h : cell.Inv effect first start) {j version}
    (hi : (i, version) ∈ cell.written) (hj : (j, version) ∈ cell.written) : i = j := by
  have hnodup : (cell.written.map (·.2)).Nodup := h.increasing.tail.imp fun hlt => Int.ne_of_lt hlt
  exact congrArg Prod.fst (inj_on_of_nodup_map hnodup hi hj rfl)

end Versioned
