import Mathlib.Algebra.Order.Ring.Nat
import StudioOS.Library.Keyed

/-!
# CycleSearch — an iterative search for a cycle

A graph gives every node the list of its targets; the search colours the nodes
(white when it has not met them, grey on the path, black when they are
finished), keeps its own stack and answers with the path from a node back to
itself.
-/

namespace CycleSearch

open List Function

variable {κ : Type*} [DecidableEq κ] [LE κ] [DecidableLE κ]

/-- A graph: the nodes, each once, with their targets. -/
abbrev Graph (κ : Type*) := List (κ × List κ)

def Graph.nodes (graph : Graph κ) : List κ := graph.map (·.1)

/-- The targets of a node, sorted; none for what is not a node. -/
def Graph.targets (graph : Graph κ) (node : κ) : List κ :=
  (((graph.find? fun entry => entry.1 = node).map (·.2)).getD []).insertionSort (· ≤ ·)

/-- An edge that stays inside the graph. -/
def Graph.Edge (graph : Graph κ) (target node : κ) : Prop :=
  target ∈ graph.targets node ∧ target ∈ graph.nodes

theorem Graph.edge_of_mem {graph : Graph κ} (hnodes : graph.nodes.Nodup) {entry : κ × List κ}
    (hentry : entry ∈ graph) {target : κ} (htarget : target ∈ entry.2)
    (hnode : target ∈ graph.nodes) : graph.Edge target entry.1 := by
  have hfind := Keyed.find?_of_mem (fun entry : κ × List κ => entry.1) hnodes hentry
  refine ⟨?_, hnode⟩
  rw [Graph.targets, hfind]
  exact (perm_insertionSort _ _).mem_iff.mpr htarget

inductive Color where
  | white
  | grey
  | black
deriving DecidableEq

structure Search (κ : Type*) where
  color : κ → Color
  stack : List (κ × Nat)
  path : List κ

/-- A node the search has not looked at yet goes on the path. -/
def Search.enter (node : κ) (index : Nat) (search : Search κ) : Search κ :=
  if index = 0 then
    { search with color := Function.update search.color node .grey, path := search.path ++ [node] }
  else search

/-- One round of the loop, with the top of the stack popped: the cycle, or
the search to go on with. -/
def Search.round (graph : Graph κ) (node : κ) (index : Nat) (search : Search κ) :
    Except (List κ) (Search κ) :=
  if index = 0 ∧ search.color node = .black then .ok search
  else
    let entered := search.enter node index
    match (graph.targets node)[index]? with
    | some target =>
      if entered.color target = .grey then
        .error (entered.path.dropWhile (· ≠ target) ++ [target])
      else if entered.color target = .white ∧ target ∈ graph.nodes then
        .ok { entered with stack := (target, 0) :: (node, index + 1) :: entered.stack }
      else .ok { entered with stack := (node, index + 1) :: entered.stack }
    | none =>
      .ok { entered with
        color := Function.update entered.color node .black
        path := entered.path.dropLast }

/-- The loop, until the stack is empty. -/
def Search.run (graph : Graph κ) : Nat → Search κ → Except (List κ) (Search κ)
  | 0, search => .ok search
  | fuel + 1, search =>
    match search.stack with
    | [] => .ok search
    | (node, index) :: stack =>
      match Search.round graph node index { search with stack := stack } with
      | .error cycle => .error cycle
      | .ok next => Search.run graph fuel next

/-- More rounds than the loop can make from one node. -/
def Graph.rounds (graph : Graph κ) : Nat :=
  (graph.nodes.map fun node => (graph.targets node).length + 2).sum

/-- The outer loop, over the nodes in order. -/
def searchFrom (graph : Graph κ) : List κ → (κ → Color) → Option (List κ)
  | [], _ => none
  | start :: starts, color =>
    if color start ≠ .white then searchFrom graph starts color
    else
      match Search.run graph graph.rounds ⟨color, [(start, 0)], []⟩ with
      | .error cycle => some cycle
      | .ok search => searchFrom graph starts search.color

def findCycle (graph : Graph κ) : Option (List κ) :=
  searchFrom graph (graph.nodes.insertionSort (· ≤ ·)) fun _ => .white

/-! ## The invariant -/

variable {graph : Graph κ}

/-- What is finished leads nowhere but to what is finished. -/
def Closed (graph : Graph κ) (color : κ → Color) : Prop :=
  ∀ node, color node = .black → Acc graph.Edge node

/-- On the stack, the targets a node has behind it are finished, but for
the one the search has gone down to. -/
def Stacked (graph : Graph κ) (color : κ → Color) : Option κ → List (κ × Nat) → Prop
  | _, [] => True
  | below, (node, index) :: stack =>
    (∀ target ∈ (graph.targets node).take index, target ∈ graph.nodes →
      color target = .black ∨ below = some target) ∧
    index ≤ (graph.targets node).length ∧ (index = 0 → below = none) ∧
    Stacked graph color (some node) stack

def newRounds (graph : Graph κ) (color : κ → Color) (nodes : List κ) : Nat :=
  (nodes.map fun node => if color node = .white then (graph.targets node).length + 2 else 0).sum

/-- What is left to do: the new nodes with all their rounds, the nodes on
the stack with the rounds they still have. -/
def Search.left (graph : Graph κ) (search : Search κ) : Nat :=
  newRounds graph search.color graph.nodes +
  (search.stack.map fun entry =>
    if entry.2 = 0 then 0 else (graph.targets entry.1).length + 1 - entry.2).sum

structure Search.Inv (graph : Graph κ) (search : Search κ) : Prop where
  closed : Closed graph search.color
  stacked : Stacked graph search.color none search.stack
  fresh : ∀ entry ∈ search.stack, entry.2 = 0 →
    search.color entry.1 = .white ∧ entry.1 ∈ graph.nodes
  grey : ∀ node, search.color node = .grey → node ∈ search.stack.map (·.1)

variable {color : κ → Color} {stack : List (κ × Nat)} {c : Color} {other : κ}

theorem Stacked.mono {color' below} (h : Stacked graph color below stack)
    (hcolor : ∀ node, color node = .black → color' node = .black) :
    Stacked graph color' below stack := by
  induction stack generalizing below with
  | nil => trivial
  | cons entry stack ih =>
    obtain ⟨hbehind, hindex, htop, hrest⟩ := h
    refine ⟨?_, hindex, htop, ih hrest⟩
    intro target hmem hnode
    rcases hbehind target hmem hnode with hdone | hbelow
    · exact .inl (hcolor target hdone)
    · exact .inr hbelow

theorem Stacked.up {node} (h : Stacked graph color (some node) stack)
    (hdone : color node = .black) :
    Stacked graph color none stack := by
  cases stack with
  | nil => trivial
  | cons entry stack =>
    obtain ⟨hbehind, hindex, -, hrest⟩ := h
    refine ⟨?_, hindex, fun _ => rfl, hrest⟩
    intro target hmem hnode
    rcases hbehind target hmem hnode with hdone' | hbelow
    · exact .inl hdone'
    · obtain rfl : node = target := Option.some.inj hbelow
      exact .inl hdone

theorem Closed.update_grey (h : Closed graph color) (node) :
    Closed graph (Function.update color node .grey) := by
  intro other hother
  by_cases heq : other = node
  · subst heq
    simp at hother
  · rw [update_of_ne heq] at hother
    exact h other hother

theorem Closed.finish (h : Closed graph color) {node}
    (htargets : ∀ target ∈ graph.targets node, target ∈ graph.nodes → color target = .black) :
    Closed graph (Function.update color node .black) := by
  intro other hother
  by_cases heq : other = node
  · subst heq
    constructor
    intro target hedge
    exact h target (htargets target hedge.1 hedge.2)
  · rw [update_of_ne heq] at hother
    exact h other hother

theorem newRounds_update_le (graph) (color) (hc : c ≠ .white) (node : κ) (nodes) :
    newRounds graph (Function.update color node c) nodes ≤ newRounds graph color nodes := by
  induction nodes with
  | nil => exact Nat.le_refl _
  | cons other nodes ih =>
    simp only [newRounds, map_cons, sum_cons] at ih ⊢
    by_cases heq : other = node
    · subst heq
      simp only [update_self, hc, if_false]
      omega
    · rw [update_of_ne heq]
      omega

theorem newRounds_update_lt (graph) (hc : c ≠ .white) {node nodes} (hnode : node ∈ nodes)
    (hnew : color node = .white) :
    newRounds graph (Function.update color node c) nodes + (graph.targets node).length + 2 ≤
      newRounds graph color nodes := by
  induction nodes with
  | nil => cases hnode
  | cons other nodes ih =>
    have hle := newRounds_update_le graph color hc node nodes
    simp only [newRounds, map_cons, sum_cons] at ih hle ⊢
    by_cases heq : other = node
    · subst heq
      simp only [update_self, hc, if_false, hnew, if_true]
      omega
    · rw [update_of_ne heq]
      have := ih ((mem_cons.mp hnode).resolve_left (Ne.symm heq))
      omega

theorem Stacked.index_ne {node}
    (h : Stacked graph color (some node) stack) : ∀ entry ∈ stack, entry.2 ≠ 0 := by
  induction stack generalizing node with
  | nil => simp
  | cons entry stack ih =>
    obtain ⟨-, -, htop, hrest⟩ := h
    intro other hother
    rcases mem_cons.mp hother with rfl | hmem
    · intro hzero
      cases htop hzero
    · exact ih hrest other hmem

/-! ## One round -/

section
variable {search next : Search κ} {node : κ} {index : Nat}

omit [LE κ] [DecidableLE κ] in
theorem Search.enter_stack : (search.enter node index).stack = search.stack := by
  unfold Search.enter
  split <;> rfl

omit [LE κ] [DecidableLE κ] in
theorem Search.enter_done (search : Search κ) (hnew : index = 0 → search.color node = .white)
    (h : search.color other = .black) : (search.enter node index).color other = .black := by
  unfold Search.enter
  split
  · rename_i hzero
    have hne : other ≠ node := by
      rintro rfl
      rw [hnew hzero] at h
      cases h
    exact (update_of_ne hne _ _).trans h
  · exact h

theorem Search.enter_closed (h : Closed graph search.color) :
    Closed graph (search.enter node index).color := by
  unfold Search.enter
  split
  · exact h.update_grey node
  · exact h

theorem Search.enter_left (hnew : index = 0 → search.color node = .white ∧ node ∈ graph.nodes) :
    newRounds graph (search.enter node index).color graph.nodes +
        ((graph.targets node).length + 1 - index) < newRounds graph search.color graph.nodes +
        (if index = 0 then 0 else (graph.targets node).length + 1 - index) + 1 := by
  by_cases hzero : index = 0
  · have := newRounds_update_lt graph (c := .grey) (by decide) (hnew hzero).2
      (hnew hzero).1
    simp only [Search.enter, hzero, if_true] at this ⊢
    omega
  · simp only [Search.enter, hzero, if_false]
    omega

omit [LE κ] [DecidableLE κ] in
theorem Search.enter_grey (h : (search.enter node index).color other = .grey) :
    other = node ∨ search.color other = .grey := by
  unfold Search.enter at h
  split at h
  · by_cases heq : other = node
    · exact .inl heq
    · exact .inr ((update_of_ne heq _ _).symm.trans h)
  · exact .inr h

/-- On the stack or finished already: the search will have finished it. -/
def Search.Met (search : Search κ) (node : κ) : Prop :=
  node ∈ search.stack.map (·.1) ∨ search.color node = .black

theorem Search.Inv.round (h : search.Inv graph) (hstack : search.stack = (node, index) :: stack)
    (hround : Search.round graph node index { search with stack := stack } = .ok next) :
    next.Inv graph ∧ next.left graph < search.left graph ∧
      ∀ other, search.Met other → next.Met other := by
  obtain ⟨hclosed, hstacked, hfresh, hgrey⟩ := h
  rw [hstack] at hstacked hfresh hgrey
  obtain ⟨hbehind, hindex, -, hrest⟩ := hstacked
  have hnew : index = 0 → search.color node = .white ∧ node ∈ graph.nodes :=
    hfresh (node, index) (by simp)
  have hleft : search.left graph = newRounds graph search.color graph.nodes +
      ((if index = 0 then 0 else (graph.targets node).length + 1 - index) + (stack.map fun entry =>
          if entry.2 = 0 then 0 else (graph.targets entry.1).length + 1 - entry.2).sum) := by
    simp [Search.left, hstack]
  have hdone : ∀ other, search.color other = .black →
      (({ search with stack := stack } : Search κ).enter node index).color other = .black :=
    fun other => ({ search with stack := stack } : Search κ).enter_done
      fun hzero => (hnew hzero).1
  have hless : newRounds graph (({ search with stack := stack } : Search κ).enter node index).color
        graph.nodes + ((graph.targets node).length + 1 - index) <
      newRounds graph search.color graph.nodes +
        (if index = 0 then 0 else (graph.targets node).length + 1 - index) + 1 :=
    Search.enter_left hnew
  have hclosed' :
    Closed graph (({ search with stack := stack } : Search κ).enter node index).color :=
    Search.enter_closed hclosed
  have hkept : (({ search with stack := stack } : Search κ).enter node index).stack = stack :=
    Search.enter_stack
  have hgrey' : ∀ other, (({ search with stack := stack } : Search κ).enter node index).color
      other = .grey → other = node ∨ other ∈ stack.map (·.1) := by
    intro other hother
    rcases Search.enter_grey hother with heq | hother
    · exact .inl heq
    · exact mem_cons.mp (hgrey other hother)
  have hmet : ∀ other, search.Met other →
      other = node ∨ other ∈ stack.map (·.1) ∨ search.color other = .black := by
    intro other hother
    rw [Search.Met, hstack] at hother
    rcases hother with hother | hother
    · rcases mem_cons.mp hother with heq | hother
      · exact .inl heq
      · exact .inr (.inl hother)
    · exact .inr (.inr hother)
  -- What the round looks at is the search with the node entered.
  generalize hentered : ({ search with stack := stack } : Search κ).enter node index = entered
    at hdone hless hclosed' hkept hgrey'
  unfold Search.round at hround
  split at hround
  · rename_i hblack
    have := (hnew hblack.1).1
    simp [this] at hblack
  dsimp only at hround
  rw [hentered] at hround
  have hrest' : Stacked graph entered.color (some node) entered.stack := by
    rw [hkept]
    exact hrest.mono hdone
  split at hround
  · -- There is one more target.
    rename_i target htarget
    obtain ⟨hlt, htarget⟩ := List.getElem?_eq_some_iff.mp htarget
    have hfar : ∀ below : Option κ,
        (target ∈ graph.nodes → entered.color target = .black ∨ below = some target) →
        Stacked graph entered.color below ((node, index + 1) :: entered.stack) := by
      intro below hlast
      refine ⟨?_, hlt, fun hzero => absurd hzero (Nat.succ_ne_zero _), hrest'⟩
      intro other hother hnode
      rw [take_add_one, List.getElem?_eq_getElem hlt, htarget] at hother
      rcases mem_append.mp hother with hbefore | hlast'
      · exact .inl (hdone other ((hbehind other hbefore hnode).resolve_right (by simp)))
      · obtain rfl : other = target := by simpa using hlast'
        exact hlast hnode
    have hne := hrest'.index_ne
    have hmet' : ∀ other, search.Met other →
        other ∈ ((node, index + 1) :: entered.stack).map (·.1) ∨ entered.color other = .black := by
      intro other hother
      rw [hkept]
      rcases hmet other hother with rfl | hother | hother
      · exact .inl (by simp)
      · exact .inl (.tail _ hother)
      · exact .inr (hdone other hother)
    split at hround
    · cases hround
    rename_i hcolor
    split at hround
    · rename_i hdown
      cases hround
      refine ⟨⟨hclosed', ⟨by simp, Nat.zero_le _, fun _ => rfl, hfar _ fun _ => .inr rfl⟩, ?_, ?_⟩,
        ?_, ?_⟩
      · intro entry hentry hzero
        rcases mem_cons.mp hentry with rfl | hentry
        · exact hdown
        rcases mem_cons.mp hentry with rfl | hentry
        · cases hzero
        · exact absurd hzero (hne entry hentry)
      · intro other hother
        rw [map_cons, map_cons, hkept]
        exact .tail _ (mem_cons.mpr (hgrey' other hother))
      · rw [hleft]
        simp only [Search.left, map_cons, sum_cons, hkept, Nat.succ_ne_zero, if_false,
          if_true] at hless ⊢
        omega
      · intro other hother
        exact (hmet' other hother).imp_left (mem_cons_of_mem _)
    · rename_i hdown
      cases hround
      refine ⟨⟨hclosed', hfar none ?_, ?_, ?_⟩, ?_, hmet'⟩
      · intro hnode
        cases hblack : entered.color target with
        | white => exact absurd ⟨hblack, hnode⟩ hdown
        | grey => exact absurd hblack hcolor
        | black => exact .inl rfl
      · intro entry hentry hzero
        rcases mem_cons.mp hentry with rfl | hentry
        · cases hzero
        · exact absurd hzero (hne entry hentry)
      · intro other hother
        rw [map_cons, hkept]
        exact mem_cons.mpr (hgrey' other hother)
      · rw [hleft]
        simp only [Search.left, map_cons, sum_cons, hkept, Nat.succ_ne_zero, if_false] at hless ⊢
        omega
  · -- All targets are behind: the node is finished.
    rename_i hend
    cases hround
    have hlen : (graph.targets node).length ≤ index := List.getElem?_eq_none_iff.mp hend
    have htargets : ∀ target ∈ graph.targets node, target ∈ graph.nodes →
        entered.color target = .black := by
      intro target hmem hnode
      rw [take_of_length_le hlen] at hbehind
      exact hdone target ((hbehind target hmem hnode).resolve_right (by simp))
    have hblack : ∀ other, entered.color other = .black →
        Function.update entered.color node .black other = .black := by
      intro other hother
      by_cases heq : other = node
      · subst heq
        simp
      · rw [update_of_ne heq]
        exact hother
    refine ⟨⟨hclosed'.finish htargets, (hrest'.mono hblack).up (by simp), ?_, ?_⟩, ?_, ?_⟩
    · intro entry hentry hzero
      exact absurd hzero (hrest'.index_ne entry hentry)
    · intro other hother
      have hne : other ≠ node := by
        rintro rfl
        simp at hother
      rw [hkept]
      exact (hgrey' other ((update_of_ne hne _ _).symm.trans hother)).resolve_left hne
    · have hle := newRounds_update_le graph entered.color (c := .black)
        (by decide) node graph.nodes
      rw [hleft]
      simp only [Search.left, hkept] at hless ⊢
      omega
    · intro other hother
      rw [Search.Met, hkept]
      rcases hmet other hother with rfl | hother | hother
      · exact .inr (by simp)
      · exact .inl hother
      · exact .inr (hblack other (hdone other hother))

/-! ## The whole search -/

theorem Search.Inv.left_pos (h : search.Inv graph) (hstack : search.stack ≠ []) :
    0 < search.left graph := by
  obtain ⟨⟨node, index⟩, stack, hcons⟩ := exists_cons_of_ne_nil hstack
  by_cases hzero : index = 0
  · obtain ⟨hwhite, hnode⟩ := h.fresh (node, index) (by simp [hcons]) hzero
    have := newRounds_update_lt graph (c := .grey) (by decide) hnode hwhite
    simp only [Search.left]
    omega
  · have hstacked := h.stacked
    rw [hcons] at hstacked
    have hindex := hstacked.2.1
    simp only [Search.left, hcons, map_cons, sum_cons, hzero, if_false]
    omega

theorem Search.Inv.run {fuel} (h : search.Inv graph) (hfuel : search.left graph ≤ fuel)
    (hrun : Search.run graph fuel search = .ok next) :
    next.Inv graph ∧ next.stack = [] ∧ ∀ other, search.Met other → next.Met other := by
  induction fuel generalizing search with
  | zero =>
    cases hrun
    refine ⟨h, ?_, fun _ hmet => hmet⟩
    by_contra hstack
    have := h.left_pos hstack
    omega
  | succ fuel ih =>
    unfold Search.run at hrun
    split at hrun
    · rename_i hstack
      cases hrun
      exact ⟨h, hstack, fun _ hmet => hmet⟩
    rename_i node index stack hstack
    split at hrun
    · cases hrun
    · rename_i between hround
      obtain ⟨hinv, hleft, hmet⟩ := h.round hstack hround
      obtain ⟨hinv', hstack', hmet'⟩ := ih hinv (by omega) hrun
      exact ⟨hinv', hstack', fun other hother => hmet' other (hmet other hother)⟩

end

theorem newRounds_le (graph : Graph κ) (color) (nodes) :
    newRounds graph color nodes ≤ (nodes.map fun node => (graph.targets node).length + 2).sum := by
  induction nodes with
  | nil => exact Nat.le_refl _
  | cons node nodes ih =>
    simp only [newRounds, map_cons, sum_cons] at ih ⊢
    split <;> omega

theorem searchFrom_none {starts} (hclosed : Closed graph color) (hgrey : ∀ node, color node ≠ .grey)
    (hstarts : ∀ start ∈ starts, start ∈ graph.nodes)
    (h : searchFrom graph starts color = none) : ∀ start ∈ starts, Acc graph.Edge start := by
  induction starts generalizing color with
  | nil => simp
  | cons start starts ih =>
    have hrest := fun node hnode => hstarts node (.tail _ hnode)
    unfold searchFrom at h
    split at h
    · rename_i hcolor
      intro node hnode
      rcases mem_cons.mp hnode with rfl | hnode
      · cases hblack : color node with
        | white => exact absurd hblack hcolor
        | grey => exact absurd hblack (hgrey node)
        | black => exact hclosed node hblack
      · exact ih hclosed hgrey hrest h node hnode
    rename_i hwhite
    split at h
    · cases h
    rename_i search hrun
    have hinv : Search.Inv graph ⟨color, [(start, 0)], []⟩ := by
      refine ⟨hclosed, ⟨by simp, Nat.zero_le _, fun _ => rfl, trivial⟩, ?_, ?_⟩
      · intro entry hentry _
        obtain rfl := mem_singleton.mp hentry
        exact ⟨not_not.mp hwhite, hstarts start (by simp)⟩
      · intro node hnode
        exact absurd hnode (hgrey node)
    have hfuel : Search.left graph ⟨color, [(start, 0)], []⟩ ≤ graph.rounds := by
      have := newRounds_le graph color graph.nodes
      simp only [Search.left, map_cons, map_nil, sum_cons, sum_nil, if_true, Graph.rounds]
      omega
    obtain ⟨hinv', hstack, hmet⟩ := hinv.run hfuel hrun
    have hno : ∀ node, search.color node ≠ .grey := by
      intro node hnode
      have := hinv'.grey node hnode
      simp [hstack] at this
    intro node hnode
    rcases mem_cons.mp hnode with rfl | hnode
    · rcases hmet node (.inl (by simp)) with hmem | hblack
      · simp [hstack] at hmem
      · exact hinv'.closed node hblack
    · exact ih hinv'.closed hno hrest h node hnode

/-- **The search is sound**: when it finds no cycle, there is none. -/
theorem findCycle_none (h : findCycle graph = none) : WellFounded graph.Edge := by
  constructor
  intro node
  by_cases hnode : node ∈ graph.nodes
  · refine searchFrom_none ?_ ?_ ?_ h node ((perm_insertionSort _ _).mem_iff.mpr hnode)
    · intro other hother
      cases hother
    · intro other hother
      cases hother
    · intro start hstart
      exact (perm_insertionSort _ _).mem_iff.mp hstart
  · -- What is not a node has no targets.
    constructor
    intro target hedge
    have hfind : graph.find? (fun entry => entry.1 = node) = none := by
      apply List.find?_eq_none.mpr
      intro entry hentry heq
      exact hnode (mem_map.mpr ⟨entry, hentry, by simpa using heq⟩)
    have := hedge.1
    simp [Graph.targets, hfind] at this

end CycleSearch
