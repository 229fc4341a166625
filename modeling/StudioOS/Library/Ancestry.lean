import Mathlib.Data.List.Basic
import Mathlib.Logic.Relation

/-!
# Ancestry — a finite history and the ranges of it

The nodes of a history point to their parents and a rank falls along every
parent link, so the ancestors of a node can be found by a search with fuel.
-/

structure Ancestry (κ : Type*) where
  nodes : List κ
  parents : κ → List κ
  rank : κ → Nat
  nodup : nodes.Nodup
  closed : ∀ node ∈ nodes, ∀ parent ∈ parents node, parent ∈ nodes
  rank_lt : ∀ node, ∀ parent ∈ parents node, rank parent < rank node

namespace Ancestry

variable {κ : Type*} (graph : Ancestry κ)

/-- Parent links lead from the node to the ancestor, or they are the same. -/
def Reaches (node ancestor : κ) : Prop :=
  Relation.ReflTransGen (fun child parent => parent ∈ graph.parents child) node ancestor

section Search

variable [DecidableEq κ]

/-- The search for an ancestor, so many links deep. -/
def reachesWithin : Nat → κ → κ → Bool
  | 0, _, _ => false
  | fuel + 1, node, ancestor =>
    node = ancestor ∨
      (graph.parents node).any fun parent => reachesWithin fuel parent ancestor

def reaches (node ancestor : κ) : Bool :=
  graph.reachesWithin (graph.rank node + 1) node ancestor

variable {graph}

variable {fuel : Nat} {node ancestor : κ}

theorem Reaches.of_within
    (h : graph.reachesWithin fuel node ancestor = true) : graph.Reaches node ancestor := by
  induction fuel generalizing node with
  | zero => cases h
  | succ fuel ih =>
    rcases of_decide_eq_true h with rfl | hparent
    · exact Relation.ReflTransGen.refl
    · obtain ⟨parent, hmem, hreach⟩ := List.any_eq_true.mp hparent
      exact Relation.ReflTransGen.head hmem (ih hreach)

theorem Reaches.within (h : graph.Reaches node ancestor)
    (hfuel : graph.rank node < fuel) : graph.reachesWithin fuel node ancestor = true := by
  induction h using Relation.ReflTransGen.head_induction_on generalizing fuel with
  | refl =>
    cases fuel with
    | zero => omega
    | succ fuel => simp [reachesWithin]
  | head hmem _ ih =>
    cases fuel with
    | zero => omega
    | succ fuel =>
      have hrank := graph.rank_lt _ _ hmem
      have hfound := ih (show graph.rank _ < fuel by omega)
      refine decide_eq_true (Or.inr ?_)
      exact List.any_eq_true.mpr ⟨_, hmem, hfound⟩

/-- **The search decides the relation.** -/
theorem reaches_iff : graph.reaches node ancestor = true ↔ graph.Reaches node ancestor :=
  ⟨Reaches.of_within, fun h => h.within (Nat.lt_succ_self _)⟩

end Search

variable {graph}

theorem Reaches.trans {a b c} (hab : graph.Reaches a b) (hbc : graph.Reaches b c) :
    graph.Reaches a c :=
  Relation.ReflTransGen.trans hab hbc

theorem Reaches.mem (h : graph.Reaches node ancestor)
    (hnode : node ∈ graph.nodes) : ancestor ∈ graph.nodes := by
  induction h with
  | refl => exact hnode
  | tail _ hmem ih => exact graph.closed _ ih _ hmem

/-- What the one list reaches, the other reaches. -/
def Covered (graph : Ancestry κ) (includes excludes : List κ) : Prop :=
  ∀ node ∈ includes, ∀ ancestor, graph.Reaches node ancestor →
    ∃ other ∈ excludes, graph.Reaches other ancestor

variable [DecidableEq κ]

/-- The nodes that some of `includes` reach and none of `excludes` do. -/
def countRange (graph : Ancestry κ) (includes excludes : List κ) : Nat :=
  (graph.nodes.filter fun ancestor =>
    (includes.any fun node => graph.reaches node ancestor) &&
      !(excludes.any fun node => graph.reaches node ancestor)).length

theorem countRange_eq_zero {includes excludes} (hnodes : ∀ node ∈ includes, node ∈ graph.nodes) :
    graph.countRange includes excludes = 0 ↔ graph.Covered includes excludes := by
  rw [countRange, List.length_eq_zero_iff, List.filter_eq_nil_iff]
  constructor
  · intro h node hnode ancestor hreach
    have hempty := h ancestor (hreach.mem (hnodes node hnode))
    have hsome : (includes.any fun node => graph.reaches node ancestor) = true :=
      List.any_eq_true.mpr ⟨node, hnode, reaches_iff.mpr hreach⟩
    rw [hsome, Bool.true_and, Bool.not_eq_true', Bool.not_eq_false, List.any_eq_true] at hempty
    obtain ⟨other, hother, hfound⟩ := hempty
    exact ⟨other, hother, reaches_iff.mp hfound⟩
  · intro h ancestor _ hrange
    obtain ⟨hsome, hnone⟩ := Bool.and_eq_true_iff.mp hrange
    obtain ⟨node, hnode, hreach⟩ := List.any_eq_true.mp hsome
    obtain ⟨other, hother, hfound⟩ := h node hnode ancestor (reaches_iff.mp hreach)
    have hany : (excludes.any fun node => graph.reaches node ancestor) = true :=
      List.any_eq_true.mpr ⟨other, hother, reaches_iff.mpr hfound⟩
    simp [hany] at hnone

end Ancestry
