import StudioOS.Knowledge.Pages
import StudioOS.Knowledge.Ready
import StudioOS.Library.Offsets

/-!
# Knowledge — Paging

What following the cursors of `graph_page` and `graph_expand` gives. A page is
built exactly if its window fits the contract (`page_isSome_iff`); the cursors
go through the windows of the nodes, one after the other.
-/

namespace StudioOS.Knowledge

open List Option Deduped Offsets

/-- What a page asks of a node: an identifier, and a path it can carry. -/
def Env.NodeFits (env : Env) (patterns : Patterns) (row : GraphNodeRow) : Prop :=
  patterns.opaqueId row.nodeId = true ∧
    ∃ path, env.metadata patterns row = some path ∧ ∀ p ∈ path, p.length ≤ 256

/-- A window of nodes that makes a page, with the edges at them. -/
structure Fits (env : Env) (patterns : Patterns) (window : List GraphNodeRow)
    (edges : List GraphEdgeRow) : Prop where
  nodes : ∀ row ∈ window, env.NodeFits patterns row
  ends : ∀ edge ∈ kept (window.map GraphNodeRow.nodeId) edges, patterns.validEdge edge = true
  bounded : (kept (window.map GraphNodeRow.nodeId) edges).length ≤ maxPageLimit * 2

section
variable {env : Env} {patterns : Patterns} {nodes : List GraphNodeRow} {edges : List GraphEdgeRow} {offset limit : Nat} {truncated : Option Bool} {nextCursor : Option Nat}
  {page : GraphPage}

/-! ## One page -/

theorem shortText_safeShortText (patterns : Patterns) (candidate) :
    patterns.shortText (patterns.safeShortText candidate) = true := by
  simp only [Patterns.safeShortText]
  split
  · assumption
  · split
    · assumption
    · obtain ⟨hsecret, habsolute⟩ := patterns.untitled
      rw [Patterns.shortText, Patterns.isSafe, hsecret, habsolute]
      rfl

theorem node_eq_some {row node} (h : env.node patterns row = some node) : node.nodeId = row.nodeId ∧
      (patterns.validNode node = true ↔ env.NodeFits patterns row) := by
  obtain ⟨path, hpath, rfl⟩ := map_eq_some_iff.mp h
  refine ⟨rfl, ?_⟩
  have hsafe : ∀ p ∈ path, patterns.isSafe p = true := by
    rintro p ⟨⟩
    unfold Env.metadata at hpath
    split at hpath
    · obtain ⟨relative, -, heq⟩ := map_eq_some_iff.mp hpath
      split at heq
      · cases heq
      · rename_i hsafe
        cases heq
        simp only [Bool.or_eq_true, not_or, Bool.not_eq_true', Bool.not_eq_false] at hsafe
        exact hsafe.2
    · cases hpath
  simp only [Patterns.validNode, shortText_safeShortText, Bool.and_true, Bool.and_eq_true,
    Env.NodeFits, hpath, Option.some.injEq, exists_eq_left']
  refine and_congr_right fun _ => ?_
  cases path with
  | none => simp
  | some p => simp [hsafe p rfl]

theorem mem_kept {ids edge} : edge ∈ kept ids edges ↔
    edge ∈ edges ∧ (edge.sourceNodeId ∈ ids ∨ edge.targetNodeId ∈ ids) ∧
      (edge.sourceNodeId ∈ ids ∨ edge.sourceNodeId ∈ frontier ids edges) ∧
      (edge.targetNodeId ∈ ids ∨ edge.targetNodeId ∈ frontier ids edges) := by
  simp only [kept, candidates, mem_filter, Bool.and_eq_true, Bool.or_eq_true, decide_eq_true_eq]
  tauto

theorem mem_frontier {ids endpoint} (h : endpoint ∈ frontier ids edges) :
    ∃ edge ∈ kept ids edges, endpoint = edge.sourceNodeId ∨ endpoint = edge.targetNodeId := by
  have hmissing := mem_of_mem_firsts (mem_dedupe.mp (mem_of_mem_take h))
  rw [mem_filter, mem_flatMap] at hmissing
  obtain ⟨⟨edge, hedge, hend⟩, hout⟩ := hmissing
  rw [decide_eq_true_eq] at hout
  simp only [candidates, mem_filter, Bool.or_eq_true, decide_eq_true_eq] at hedge
  obtain ⟨hedge, hincident⟩ := hedge
  simp only [mem_cons, not_mem_nil, or_false] at hend
  rcases hend with rfl | rfl
  · have htarget := hincident.resolve_left hout
    exact ⟨edge, mem_kept.mpr ⟨hedge, hincident, .inr h, .inl htarget⟩, .inl rfl⟩
  · have hsource := hincident.resolve_right hout
    exact ⟨edge, mem_kept.mpr ⟨hedge, hincident, .inl hsource, .inr h⟩, .inr rfl⟩

theorem nodeIds_of_mapM {window : List GraphNodeRow} {pageNodes : List GraphNode}
    (h : window.mapM (env.node patterns) = some pageNodes) :
    pageNodes.map GraphNode.nodeId = window.map GraphNodeRow.nodeId := by
  have hall := mapM_eq_some.mp h
  clear h
  induction hall with
  | nil => rfl
  | cons hrow _ ih => rw [map_cons, map_cons, (node_eq_some hrow).1, ih]

theorem validate_eq_some {page'} :
    patterns.validate page = some page' ↔ patterns.validPage page = true ∧ page = page' := by
  unfold Patterns.validate
  by_cases h : patterns.validPage page = true <;> simp [h]

theorem page_eq_some
    (h : env.page patterns nodes edges offset limit truncated nextCursor = some page) :
    page.nodeIds = ((nodes.drop offset).take limit).map GraphNodeRow.nodeId ∧
      page.edges = kept (((nodes.drop offset).take limit).map GraphNodeRow.nodeId) edges ∧
      page.nextCursor = if nextCursor = none ∧ truncated.getD
            (offset + ((nodes.drop offset).take limit).length < nodes.length) = true then
          some (offset + ((nodes.drop offset).take limit).length) else nextCursor := by
  obtain ⟨pageNodes, hnodes, hpage⟩ := bind_eq_some_iff.mp h
  obtain ⟨-, rfl⟩ := validate_eq_some.mp hpage
  exact ⟨nodeIds_of_mapM hnodes, rfl, by simp [assemble]⟩

theorem nodes_fit_iff {window : List GraphNodeRow} :
    (∃ pageNodes, window.mapM (env.node patterns) = some pageNodes ∧
      pageNodes.all patterns.validNode = true) ↔ ∀ row ∈ window, env.NodeFits patterns row := by
  simp only [mapM_eq_some]
  induction window with
  | nil => simp
  | cons row window ih =>
    rw [forall_mem_cons, ← ih]
    constructor
    · rintro ⟨_, hrow | ⟨hrow, hrest⟩, hvalid⟩
      rw [all_cons, Bool.and_eq_true] at hvalid
      exact ⟨(node_eq_some hrow).2.mp hvalid.1, _, hrest, hvalid.2⟩
    rintro ⟨hfits, pageNodes, hrest, hvalid⟩
    obtain ⟨path, hpath, -⟩ := hfits.2
    have hrow : env.node patterns row = some _ := congrArg (Option.map _) hpath
    refine ⟨_ :: pageNodes, .cons hrow hrest, ?_⟩
    rw [all_cons, Bool.and_eq_true]
    exact ⟨(node_eq_some hrow).2.mpr hfits, hvalid⟩

/-- **A page is built exactly if its window fits.** -/
theorem page_isSome_iff (hids : (((nodes.drop offset).take limit).map GraphNodeRow.nodeId).Nodup)
    (hlength : ((nodes.drop offset).take limit).length ≤ maxPageLimit)
    (hedges : (edges.map GraphEdgeRow.edgeId).Nodup) :
    (env.page patterns nodes edges offset limit truncated nextCursor).isSome = true ↔
      Fits env patterns ((nodes.drop offset).take limit) edges := by
  constructor
  · intro h
    obtain ⟨page, hpage⟩ := isSome_iff_exists.mp h
    obtain ⟨pageNodes, hnodes, hpage⟩ := bind_eq_some_iff.mp hpage
    obtain ⟨hvalid, -⟩ := validate_eq_some.mp hpage
    simp only [Patterns.validPage, Bool.and_eq_true, decide_eq_true_eq] at hvalid
    obtain ⟨⟨⟨⟨⟨⟨⟨_, hbounded⟩, _⟩, ⟨hvalidNodes, hvalidEdges⟩, _⟩, _⟩, _⟩, _⟩, _⟩ := hvalid
    exact ⟨nodes_fit_iff.mp ⟨pageNodes, hnodes, hvalidNodes⟩, List.all_eq_true.mp hvalidEdges,
      hbounded⟩
  intro hfits
  obtain ⟨pageNodes, hnodes, hvalidNodes⟩ := nodes_fit_iff.mpr hfits.nodes
  have hpageIds := nodeIds_of_mapM hnodes
  have hpageLength : pageNodes.length = ((nodes.drop offset).take limit).length := by
    simpa using congrArg List.length hpageIds
  have hfrontier : ∀ endpoint ∈
      frontier (((nodes.drop offset).take limit).map GraphNodeRow.nodeId) edges,
      patterns.opaqueId endpoint = true := by
    intro endpoint hmem
    obtain ⟨edge, hedge, hend⟩ := mem_frontier hmem
    have hvalid := hfits.ends edge hedge
    simp only [Patterns.validEdge, Bool.and_eq_true] at hvalid
    rcases hend with rfl | rfl
    · exact hvalid.1.2
    · exact hvalid.2
  have hvalid : patterns.validPage (assemble ((nodes.drop offset).take limit) pageNodes edges
      nodes.length offset truncated nextCursor) = true := by
    simp only [Patterns.validPage, assemble, Bool.and_eq_true, decide_eq_true_eq,
      GraphPage.nodeIds, GraphPage.edgeIds, hpageIds, hpageLength, and_true, hvalidNodes]
    refine ⟨⟨⟨⟨⟨⟨hlength, hfits.bounded⟩, ?_⟩, ⟨trivial, List.all_eq_true.mpr hfits.ends⟩,
      List.all_eq_true.mpr hfrontier⟩, hids, ?_⟩, ?_⟩, ?_⟩
    · rw [frontier, length_take]
      exact min_le_left ..
    · exact hedges.sublist ((filter_sublist.trans filter_sublist).map _)
    · rw [List.all_eq_true]
      intro edge hedge
      obtain ⟨-, -, hsource, htarget⟩ := mem_kept.mp hedge
      simp only [Bool.and_eq_true, Bool.or_eq_true, decide_eq_true_eq]
      exact ⟨hsource, htarget⟩
    · cases truncated.getD (offset + ((nodes.drop offset).take limit).length < nodes.length) <;>
        cases nextCursor <;> simp
  rw [Env.page, hnodes, bind_some, Patterns.validate, if_pos hvalid]
  rfl

/-- The nodes of the page `i`. -/
def windowOf (nodes : List GraphNodeRow) (limit i : Nat) : List GraphNodeRow :=
  (nodes.drop (i * limit)).take limit

/-- An end of the edge is among the nodes. -/
def Touches (nodes : List GraphNodeRow) (edge : GraphEdgeRow) : Prop :=
  edge.sourceNodeId ∈ nodes.map GraphNodeRow.nodeId ∨
    edge.targetNodeId ∈ nodes.map GraphNodeRow.nodeId

/-- The pages together have each node once, and each edge at a node. -/
structure Complete (nodes : List GraphNodeRow) (edges : List GraphEdgeRow)
    (pages : List GraphPage) : Prop where
  all : pages.flatMap GraphPage.nodeIds = nodes.map GraphNodeRow.nodeId
  once : (nodes.map GraphNodeRow.nodeId).Nodup
  shown : ∀ edge ∈ edges, Touches nodes edge → ∃ page ∈ pages, edge.edgeId ∈ page.edgeIds

/-- Every window makes a page, and every edge at a node is shown with one. -/
structure Pageable (env : Env) (patterns : Patterns) (nodes : List GraphNodeRow)
    (edges : List GraphEdgeRow) (limit : Nat) : Prop where
  fits : ∀ i, OnWay limit nodes.length 0 i → Fits env patterns (windowOf nodes limit i) edges
  shown : ∀ edge ∈ edges, Touches nodes edge → ∃ i, OnWay limit nodes.length 0 i ∧
    edge ∈ kept ((windowOf nodes limit i).map GraphNodeRow.nodeId) edges

theorem page_advances (env : Env) (patterns) (nodes edges) (limit) :
    Advances (fun cursor => env.page patterns nodes edges cursor limit none none)
      GraphPage.nextCursor limit nodes.length := by
  intro offset page hpage
  obtain ⟨-, -, hcursor⟩ := page_eq_some hpage
  rw [hcursor]
  simp only [getD_none, decide_eq_true_eq, true_and, length_take, length_drop]
  by_cases h : offset + limit < nodes.length
  · rw [if_pos h, if_pos (by omega), Nat.min_eq_left (by omega)]
  · rw [if_neg h, if_neg (by omega)]

/-- **Paging is complete exactly if the nodes are pageable.** -/
theorem complete_iff (hids : (nodes.map GraphNodeRow.nodeId).Nodup)
    (hedges : (edges.map GraphEdgeRow.edgeId).Nodup) (hpos : 0 < limit)
    (hlimit : limit ≤ maxPageLimit) :
    (∃ pages, Followed (fun cursor => env.page patterns nodes edges cursor limit none none)
        GraphPage.nextCursor 0 pages ∧ Complete nodes edges pages) ↔
      Pageable env patterns nodes edges limit := by
  have hadvances := page_advances env patterns nodes edges limit
  have hbuilt : ∀ i, (env.page patterns nodes edges (0 + i * limit) limit none none).isSome = true ↔
      Fits env patterns (windowOf nodes limit i) edges := by
    intro i
    rw [Nat.zero_add]
    refine page_isSome_iff ?_ ?_ hedges
    · exact hids.sublist (((take_sublist _ _).trans (drop_sublist _ _)).map _)
    · rw [length_take]
      omega
  constructor
  · rintro ⟨pages, hpages, hcomplete⟩
    have hall := (exists_followed_iff hadvances hpos 0).mp ⟨pages, hpages⟩
    refine ⟨fun i hi => (hbuilt i).mp (hall i hi), ?_⟩
    intro edge hedge htouches
    obtain ⟨page, hpage, hid⟩ := hcomplete.shown edge hedge htouches
    obtain ⟨i, hi, hrequest⟩ := (mem_pages_iff hadvances hpages page).mp hpage
    obtain ⟨other, hother, heq⟩ := List.mem_map.mp hid
    rw [(page_eq_some hrequest).2.1, Nat.zero_add] at hother
    have hsame : other = edge := inj_on_of_nodup_map hedges (mem_kept.mp hother).1 hedge heq
    exact ⟨i, hi, hsame ▸ hother⟩
  · intro hpageable
    obtain ⟨pages, hpages⟩ := (exists_followed_iff hadvances hpos 0).mpr
      fun i hi => (hbuilt i).mpr (hpageable.fits i hi)
    refine ⟨pages, hpages, ?_, hids, ?_⟩
    · have hlength : (nodes.map GraphNodeRow.nodeId).length = nodes.length := length_map ..
      have hcontent : ∀ offset page, env.page patterns nodes edges offset limit none none =
          some page → page.nodeIds = ((nodes.map GraphNodeRow.nodeId).drop offset).take limit := by
        intro offset page hpage
        rw [(page_eq_some hpage).1, map_take, map_drop]
      have hflat := flatMap_pages hadvances hlength hcontent hpages
      rwa [drop_zero] at hflat
    · intro edge hedge htouches
      obtain ⟨i, hi, hshown⟩ := hpageable.shown edge hedge htouches
      obtain ⟨page, hpage⟩ := isSome_iff_exists.mp ((hbuilt i).mpr (hpageable.fits i hi))
      refine ⟨page, (mem_pages_iff hadvances hpages page).mpr ⟨i, hi, hpage⟩, ?_⟩
      have hkept := (page_eq_some hpage).2.1
      rw [Nat.zero_add] at hkept
      exact List.mem_map_of_mem (hkept ▸ hshown)

/-! ## Neighbours -/

variable {graph : GraphSnapshot} {nodeId : Text} {direction : GraphDirection}
  {relations : List RequestedRelation}

theorem neighbours_sub {other} (h : other ∈ graph.neighbours nodeId direction relations) :
    other ∈ graph.nodeIds := by
  have := mem_of_mem_firsts (mem_dedupe.mp h)
  simp only [mem_filter, Bool.and_eq_true, decide_eq_true_eq] at this
  exact this.2.2

theorem mem_neighbours {edge} (hedge : edge ∈ graph.incident nodeId direction relations)
    (hother : otherEnd nodeId edge ≠ nodeId) (hknown : otherEnd nodeId edge ∈ graph.nodeIds) :
    otherEnd nodeId edge ∈ graph.neighbours nodeId direction relations := by
  have hrow : otherEnd nodeId edge ∈
      ((graph.incident nodeId direction relations).map (otherEnd nodeId)).filter
        fun other => other ≠ nodeId && other ∈ graph.nodeIds := by
    simp only [mem_filter, Bool.and_eq_true, decide_eq_true_eq]
    exact ⟨List.mem_map_of_mem hedge, hother, hknown⟩
  have hkey := @key_mem_firsts _ _ _ id _ _ hrow
  rw [List.map_id] at hkey
  exact mem_dedupe.mpr hkey

theorem expandNodes_ids {window} (hnode : nodeId ∈ graph.nodeIds)
    (hwindow : ∀ other ∈ window, other ∈ graph.nodeIds) :
    (graph.expandNodes nodeId window).map GraphNodeRow.nodeId = dedupe id (nodeId :: window) := by
  have hknown : ∀ other ∈ dedupe id (nodeId :: window), other ∈ graph.nodeIds := by
    intro other hother
    rcases mem_cons.mp (mem_of_mem_firsts (mem_dedupe.mp hother)) with rfl | hmem
    · exact hnode
    · exact hwindow other hmem
  unfold GraphSnapshot.expandNodes
  generalize dedupe id (nodeId :: window) = ids at hknown
  induction ids with
  | nil => rfl
  | cons other ids ih =>
    rw [forall_mem_cons] at hknown
    obtain ⟨row, hrow, hid⟩ := List.mem_map.mp hknown.1
    cases hfind : graph.nodes.find? fun node => node.nodeId = other with
    | none => simpa [hid] using List.find?_eq_none.mp hfind row hrow
    | some found =>
      have hfound : found.nodeId = other := by simpa using List.find?_some hfind
      simp [hfind, ih hknown.2, hfound]

/-- Every page of neighbours is built, and has neighbours if there are any. -/
structure Expandable (env : Env) (patterns : Patterns) (graph : GraphSnapshot) (nodeId : Text)
    (direction : GraphDirection) (relations : List RequestedRelation) (limit : Nat) : Prop where
  room : graph.neighbours nodeId direction relations = [] ∨ 2 ≤ limit
  fits : ∀ i, OnWay (limit - 1) (graph.neighbours nodeId direction relations).length 0 i →
    Fits env patterns
      (graph.expandNodes nodeId
        (expandWindow (graph.neighbours nodeId direction relations) limit (i * (limit - 1))))
      (graph.incident nodeId direction relations)

theorem expandPage_eq_some {cursor} (hnode : nodeId ∈ graph.nodeIds)
    (h : env.expandPage patterns graph nodeId direction relations limit cursor = some page) :
    page.nodeIds = dedupe id (nodeId ::
        expandWindow (graph.neighbours nodeId direction relations) limit cursor) ∧ page.nextCursor =
        if cursor + (limit - 1) < (graph.neighbours nodeId direction relations).length then
          some (cursor + (limit - 1)) else none := by
  obtain ⟨hids, -, hcursor⟩ := page_eq_some h
  constructor
  · rw [hids, drop_zero, take_length]
    refine expandNodes_ids hnode ?_
    intro other hother
    exact neighbours_sub (mem_of_mem_drop (mem_of_mem_take hother))
  rw [hcursor]
  simp only [getD_some, expandWindow, length_take, length_drop, decide_eq_true_eq]
  generalize (graph.neighbours nodeId direction relations).length = total
  by_cases hlt : cursor + (limit - 1) < total
  · have hwindow : min (limit - 1) (total - cursor) = limit - 1 := by omega
    simp [hwindow, hlt]
  · have hwindow : ¬ cursor + min (limit - 1) (total - cursor) < total := by omega
    simp [hwindow, hlt]

theorem whole_page_isSome_iff (hids : (nodes.map GraphNodeRow.nodeId).Nodup)
    (hlength : nodes.length ≤ maxPageLimit) (hedges : (edges.map GraphEdgeRow.edgeId).Nodup) :
    (env.page patterns nodes edges 0 nodes.length truncated nextCursor).isSome = true ↔
      Fits env patterns nodes edges := by
  have hall : (nodes.drop 0).take nodes.length = nodes := by
    rw [drop_zero, take_length]
  have h := @page_isSome_iff env patterns nodes edges 0 nodes.length truncated nextCursor
  rw [hall] at h
  exact h hids hlength hedges

theorem expandPage_isSome_iff {cursor} (hnode : nodeId ∈ graph.nodeIds)
    (hedges : (graph.edges.map GraphEdgeRow.edgeId).Nodup) (hpos : 0 < limit)
    (hlimit : limit ≤ maxPageLimit) :
    (env.expandPage patterns graph nodeId direction relations limit cursor).isSome = true ↔
      Fits env patterns (graph.expandNodes nodeId
          (expandWindow (graph.neighbours nodeId direction relations) limit cursor))
        (graph.incident nodeId direction relations) := by
  have hwindow : ∀ other ∈ expandWindow (graph.neighbours nodeId direction relations) limit cursor,
      other ∈ graph.nodeIds := fun other hother =>
    neighbours_sub (mem_of_mem_drop (mem_of_mem_take hother))
  have hlength : (expandWindow (graph.neighbours nodeId direction relations) limit
      cursor).length ≤ limit - 1 := by
    rw [expandWindow, length_take]
    exact min_le_left ..
  simp only [Env.expandPage]
  generalize expandWindow (graph.neighbours nodeId direction relations) limit cursor = window
    at hwindow hlength
  have hids := expandNodes_ids hnode hwindow
  have hnodup : (dedupe id (nodeId :: window)).Nodup := by
    simpa using dedupe_nodup id (nodeId :: window)
  refine whole_page_isSome_iff (hids ▸ hnodup) ?_ (hedges.sublist (filter_sublist.map _))
  have hsub := (hnodup.subperm fun other hother =>
    mem_of_mem_firsts (mem_dedupe.mp hother)).length_le
  rw [← hids, length_map, length_cons] at hsub
  omega

/-- **Expanding is complete exactly if the node is expandable.** -/
theorem expanded_iff (hedges : (graph.edges.map GraphEdgeRow.edgeId).Nodup)
    (hnode : nodeId ∈ graph.nodeIds) (hpos : 0 < limit) (hlimit : limit ≤ maxPageLimit) :
    (∃ pages, Followed (env.expandPage patterns graph nodeId direction relations limit)
        GraphPage.nextCursor 0 pages ∧
      ∀ edge ∈ graph.incident nodeId direction relations, otherEnd nodeId edge ≠ nodeId →
        otherEnd nodeId edge ∈ graph.nodeIds →
          ∃ page ∈ pages, otherEnd nodeId edge ∈ page.nodeIds) ↔
      Expandable env patterns graph nodeId direction relations limit := by
  have hadvances : Advances (env.expandPage patterns graph nodeId direction relations limit)
      GraphPage.nextCursor (limit - 1) (graph.neighbours nodeId direction relations).length :=
    fun offset page hpage => (expandPage_eq_some hnode hpage).2
  have hbuilt : ∀ cursor, _ := fun cursor =>
    @expandPage_isSome_iff env patterns limit graph nodeId direction relations cursor hnode hedges
      hpos hlimit
  constructor
  · rintro ⟨pages, hpages, -⟩
    have hroom : graph.neighbours nodeId direction relations = [] ∨ 2 ≤ limit := by
      by_contra hnot
      rw [not_or] at hnot
      have hone : limit - 1 = 0 := by omega
      rw [hone] at hadvances
      have hnil := not_followed_of_size_zero hadvances hpages
      exact hnot.1 (length_eq_zero_iff.mp (Nat.le_zero.mp hnil))
    refine ⟨hroom, fun i hi => ?_⟩
    by_cases hsize : 0 < limit - 1
    · have hall := (exists_followed_iff hadvances hsize 0).mp ⟨pages, hpages⟩ i hi
      rw [Nat.zero_add] at hall
      exact (hbuilt _).mp hall
    -- without room there is one page only
    have hfirst : (env.expandPage patterns graph nodeId direction relations limit 0).isSome =
        true := by
      cases hpages with
      | last answer _ => exact isSome_iff_exists.mpr ⟨_, answer⟩
      | more answer _ _ => exact isSome_iff_exists.mpr ⟨_, answer⟩
    have hzero : i * (limit - 1) = 0 := by
      rw [Nat.eq_zero_of_not_pos hsize, Nat.mul_zero]
    rw [hzero]
    exact (hbuilt 0).mp hfirst
  · intro hexpandable
    by_cases hsize : 0 < limit - 1
    · obtain ⟨pages, hpages⟩ := (exists_followed_iff hadvances hsize 0).mpr fun i hi => by
        rw [Nat.zero_add]
        exact (hbuilt _).mpr (hexpandable.fits i hi)
      refine ⟨pages, hpages, ?_⟩
      intro edge hedge hother hknown
      have hneighbour := mem_neighbours hedge hother hknown
      -- the window that the neighbour is in
      obtain ⟨k, hk, hget⟩ := mem_iff_getElem.mp hneighbour
      have hdiv : k / (limit - 1) * (limit - 1) ≤ k := Nat.div_mul_le_self ..
      have hmod : k < k / (limit - 1) * (limit - 1) + (limit - 1) := Nat.lt_div_mul_add hsize
      have hway : OnWay (limit - 1) (graph.neighbours nodeId direction relations).length 0
          (k / (limit - 1)) := .inr (by omega)
      obtain ⟨page, hpage⟩ := isSome_iff_exists.mp ((hbuilt _).mpr (hexpandable.fits _ hway))
      refine ⟨page, (mem_pages_iff hadvances hpages page).mpr ⟨_, hway, by rwa [Nat.zero_add]⟩, ?_⟩
      rw [(expandPage_eq_some hnode hpage).1]
      have hwindow : otherEnd nodeId edge ∈
          expandWindow (graph.neighbours nodeId direction relations) limit
            (k / (limit - 1) * (limit - 1)) := by
        refine mem_iff_getElem.mpr ⟨k - k / (limit - 1) * (limit - 1), ?_, ?_⟩
        · rw [expandWindow, length_take, length_drop]
          omega
        · simp only [expandWindow, getElem_take, getElem_drop]
          rw [← hget]
          congr 1
          omega
      have hkey := @key_mem_firsts _ _ _ id (nodeId :: _) _ (mem_cons_of_mem nodeId hwindow)
      rw [List.map_id] at hkey
      exact mem_dedupe.mpr hkey
    · have hnil : graph.neighbours nodeId direction relations = [] :=
        hexpandable.room.resolve_right (by omega)
      obtain ⟨page, hpage⟩ := isSome_iff_exists.mp ((hbuilt _).mpr (hexpandable.fits 0 (.inl rfl)))
      rw [Nat.zero_mul] at hpage
      have hdone := (expandPage_eq_some hnode hpage).2
      rw [hnil] at hdone
      refine ⟨[page], .last hpage hdone, ?_⟩
      intro edge hedge hother hknown
      have hneighbour := mem_neighbours hedge hother hknown
      rw [hnil] at hneighbour
      cases hneighbour

/-- What is asked of `graph_page`: following it from the start builds all pages,
with each filtered node once and each edge at one of them. -/
def Env.Pages (env : Env) (patterns : Patterns) (rows : List DocumentRow)
    (nodeKinds : List RequestedKind) (limit : Nat) : Prop :=
  ∃ graph, env.graph rows = some graph ∧
    ∃ pages, Followed (env.graphPage patterns rows nodeKinds limit) GraphPage.nextCursor 0 pages ∧
      Complete (graph.filtered nodeKinds) graph.edges pages

/-- What is asked of `graph_expand`, of a node of the index: following it from
the start ends, with every neighbour. -/
def Env.Expands (env : Env) (patterns : Patterns) (rows : List DocumentRow) (nodeId : Text)
    (direction : GraphDirection) (relations : List RequestedRelation) (limit : Nat) : Prop :=
  ∃ graph, env.graph rows = some graph ∧ (nodeId ∈ graph.nodeIds →
    ∃ pages, Followed (env.graphExpand patterns rows nodeId direction relations limit)
        GraphPage.nextCursor 0 pages ∧
      ∀ edge ∈ graph.incident nodeId direction relations, otherEnd nodeId edge ≠ nodeId →
        otherEnd nodeId edge ∈ graph.nodeIds →
          ∃ page ∈ pages, otherEnd nodeId edge ∈ page.nodeIds)

theorem graph_nodup {rows} (h : env.graph rows = some graph) :
    (graph.nodes.map GraphNodeRow.nodeId).Nodup ∧ (graph.edges.map GraphEdgeRow.edgeId).Nodup := by
  obtain ⟨nodes, -, rfl⟩ := map_eq_some_iff.mp h
  exact ⟨dedupe_nodup _ _, dedupe_nodup _ _⟩

/-- **When the paging of a graph is complete.** -/
theorem graph_pages_exact (env : Env) (patterns : Patterns) (rows : List DocumentRow)
    (limit : Nat) (hpos : 1 ≤ limit) (hlimit : limit ≤ maxPageLimit) :
    (∀ nodeKinds, env.Pages patterns rows nodeKinds limit ↔ ∃ graph, env.graph rows = some graph ∧
      Pageable env patterns (graph.filtered nodeKinds) graph.edges limit) ∧
    ∀ nodeId direction relations, env.Expands patterns rows nodeId direction relations limit ↔
      ∃ graph, env.graph rows = some graph ∧ (nodeId ∈ graph.nodeIds →
        Expandable env patterns graph nodeId direction relations limit) := by
  constructor
  · intro nodeKinds
    refine exists_congr fun graph => and_congr_right fun hgraph => ?_
    obtain ⟨hids, hedges⟩ := graph_nodup hgraph
    have hrequest : env.graphPage patterns rows nodeKinds limit =
        fun cursor => env.page patterns (graph.filtered nodeKinds) graph.edges cursor limit none
          none := by
      funext cursor
      rw [Env.graphPage, hgraph, bind_some]
    have hfiltered : ((graph.filtered nodeKinds).map GraphNodeRow.nodeId).Nodup := by
      unfold GraphSnapshot.filtered
      split
      · exact hids
      · exact hids.sublist (filter_sublist.map _)
    rw [hrequest]
    exact complete_iff hfiltered hedges hpos hlimit
  · intro nodeId direction relations
    refine exists_congr fun graph => and_congr_right fun hgraph => forall_congr' fun hnode => ?_
    have hrequest : env.graphExpand patterns rows nodeId direction relations limit =
        env.expandPage patterns graph nodeId direction relations limit := by
      funext cursor
      rw [Env.graphExpand, hgraph, bind_some]
    rw [hrequest]
    exact expanded_iff (graph_nodup hgraph).2 hnode hpos hlimit

end

/-- Identifiers of digits, and no text that is refused. -/
def Env.hashed : Env :=
  { Env.sample with
    digest := fun text =>
      (Nat.repr (text.foldl (fun n c => (n * 31 + c.toNat) % 1000000007) 7)).toList }

def Patterns.none : Patterns where
  secret _ := false
  absolute _ := false
  untitled := ⟨rfl, rfl⟩

def taggedNote (tag : String) : DocumentRow where
  relativePath := "a.md".toList
  title := "a".toList
  contentHash := []
  sizeBytes := 1
  mtimeNs := 1
  body := []
  headings := []
  links := []
  tags := [{ tag := tag.toList, slug := tag.toList }]

theorem graph_pages_exact_todo :
    (∀ nodeKinds, Env.hashed.Pages .none [taggedNote "todo"] nodeKinds 1 ↔
      ∃ graph, Env.hashed.graph [taggedNote "todo"] = some graph ∧
        Pageable Env.hashed .none (graph.filtered nodeKinds) graph.edges 1) ∧
    ∀ nodeId direction relations,
      Env.hashed.Expands .none [taggedNote "todo"] nodeId direction relations 1 ↔
        ∃ graph, Env.hashed.graph [taggedNote "todo"] = some graph ∧ (nodeId ∈ graph.nodeIds →
          Expandable Env.hashed .none graph nodeId direction relations 1) :=
  graph_pages_exact Env.hashed .none [taggedNote "todo"] 1 (by decide) (by decide)

/-- **A tag that is no identifier** makes a page that the contract refuses. -/
theorem graph_pages_tag :
    ¬ ∀ (env : Env) (patterns : Patterns) (rows : List DocumentRow) (nodeKinds : List RequestedKind)
      (limit : Nat), 1 ≤ limit → limit ≤ maxPageLimit →
      env.Pages patterns rows nodeKinds limit := by
  intro h
  obtain ⟨graph, hgraph, pages, hpages, -⟩ :=
    h Env.hashed .none [taggedNote "café"] [] 100 (by decide) (by decide)
  have hrefused : Env.hashed.graphPage .none [taggedNote "café"] [] 100 0 = none := by
    have : (Env.hashed.graphPage .none [taggedNote "café"] [] 100 0).isNone = true := by
      decide +kernel
    exact isNone_iff_eq_none.mp this
  cases hpages with
  | last answer _ => rw [hrefused] at answer; cases answer
  | more answer _ _ => rw [hrefused] at answer; cases answer

/-- With a tag that is one, the page of the same note is built. -/
example : (Env.hashed.graphPage .none [taggedNote "todo"] [] 100 0).isSome = true := by
  decide +kernel

end StudioOS.Knowledge
