import StudioOS.CodeQueries.Index

/-!
# Code queries — Contract

An index of one source answers `page` and `expand` with pages that meet their
contract, and `search` with symbols that meet theirs.
-/

namespace StudioOS.CodeQueries

open List

/-- What every index has: ids of their own, kinds and relations of the code,
edges between its nodes and of one source, and URIs of the code. -/
structure CodeGraphIndex.Coherent (index : CodeGraphIndex) : Prop where
  nodeIds : (index.nodes.map GraphNode.nodeId).Nodup
  edgeIds : (index.edges.map GraphEdge.edgeId).Nodup
  kinds : ∀ node ∈ index.nodes, node.kind ∈ codeNodeKinds
  relations : ∀ edge ∈ index.edges, edge.kind ∈ codeRelations
  endSources : ∀ edge ∈ index.edges,
    edge.source.sourceId = edge.sourceId ∧ edge.target.sourceId = edge.sourceId
  known : ∀ edge ∈ index.edges, edge.source.nodeId ∈ index.nodes.map GraphNode.nodeId ∧
    edge.target.nodeId ∈ index.nodes.map GraphNode.nodeId
  uris : ∀ node ∈ index.nodes, ∀ uri, node.uri = some uri → codeUri.isPrefixOf uri = true

/-- What snapshots hand to an index. -/
structure FromSnapshots (nodes : List GraphNode) (edges : List GraphEdge) : Prop where
  nodeIds : (nodes.map GraphNode.nodeId).Nodup
  edgeIds : (edges.map GraphEdge.edgeId).Nodup
  kinds : ∀ node ∈ nodes, node.kind ∈ codeNodeKinds
  relations : ∀ edge ∈ edges, edge.kind ∈ codeRelations
  endSources : ∀ edge ∈ edges,
    edge.source.sourceId = edge.sourceId ∧ edge.target.sourceId = edge.sourceId
  uris : ∀ node ∈ nodes, ∀ uri, node.uri = some uri → codeUri.isPrefixOf uri = true

theorem CodeGraphIndex.mem_make {sourceId fingerprint nodes edges} :
    (∀ node, node ∈ (make sourceId fingerprint nodes edges).nodes ↔ node ∈ nodes) ∧
      ∀ edge, edge ∈ (make sourceId fingerprint nodes edges).edges ↔ edge ∈ edges ∧
        edge.source.nodeId ∈ nodes.map GraphNode.nodeId ∧
          edge.target.nodeId ∈ nodes.map GraphNode.nodeId := by
  refine ⟨fun node => (perm_insertionSort _ nodes).mem_iff, fun edge => ?_⟩
  rw [make, (perm_insertionSort _ _).mem_iff, mem_filter]
  simp

theorem FromSnapshots.coherent {sourceId fingerprint nodes edges} (h : FromSnapshots nodes edges) :
    (CodeGraphIndex.make sourceId fingerprint nodes edges).Coherent := by
  obtain ⟨hnode, hedge⟩ := @CodeGraphIndex.mem_make sourceId fingerprint nodes edges
  exact
    { nodeIds := (((perm_insertionSort _ nodes).map _).nodup_iff).mpr h.nodeIds
      edgeIds := (((perm_insertionSort _ _).map _).nodup_iff).mpr
        ((filter_sublist.map _).nodup h.edgeIds)
      kinds := fun node hmem => h.kinds node ((hnode node).mp hmem)
      relations := fun edge hmem => h.relations edge ((hedge edge).mp hmem).1
      endSources := fun edge hmem => h.endSources edge ((hedge edge).mp hmem).1
      known := by
        intro edge hmem
        have hperm := (perm_insertionSort
          (fun first second : GraphNode => first.nodeId ≤ second.nodeId) nodes).map
            GraphNode.nodeId
        obtain ⟨-, hsource, htarget⟩ := (hedge edge).mp hmem
        exact ⟨hperm.mem_iff.mpr hsource, hperm.mem_iff.mpr htarget⟩
      uris := fun node hmem => h.uris node ((hnode node).mp hmem) }

/-- All of the index comes from its provider. -/
def CodeGraphIndex.OneSource (index : CodeGraphIndex) : Prop :=
  (∀ node ∈ index.nodes, node.sourceId = index.sourceId) ∧
    ∀ edge ∈ index.edges, edge.sourceId = index.sourceId

instance (index : CodeGraphIndex) : Decidable index.OneSource :=
  inferInstanceAs (Decidable (_ ∧ _))

section Index

variable {texts : Texts} {index : CodeGraphIndex}

variable {nodeId : Text} {edge : GraphEdge} {taken : Taken} {node : GraphNode} {limit : Nat}
  {window rest : List GraphNode} {page : GraphPage} {kinds : List NodeKind} {source : GraphSource}
  {center : GraphNode} {needle : Text}

theorem CodeGraphIndex.mem_incident : edge ∈ index.incident nodeId ↔
      edge ∈ index.edges ∧ (edge.source.nodeId = nodeId ∨ edge.target.nodeId = nodeId) := by
  simp [CodeGraphIndex.incident]

theorem CodeGraphIndex.mem_fresh : edge ∈ index.fresh taken node ↔
      edge ∈ index.incident node.nodeId ∧ edge.edgeId ∉ taken.edgeIds := by
  simp [CodeGraphIndex.fresh]

theorem CodeGraphIndex.fresh_sublist (taken) (node) :
    (index.fresh taken node).Sublist index.edges :=
  filter_sublist.trans filter_sublist

/-- The edges that a page takes of its first node, if not all fit. -/
def CodeGraphIndex.kept (index : CodeGraphIndex) (first : GraphNode) : List GraphEdge :=
  (clip first.nodeId (index.fresh Taken.none first) ∅).1

/-- The nodes make one page, without a cursor, whose first node does not fit,
and that has all the ends of the edges it takes. -/
def CodeGraphIndex.Cramped (index : CodeGraphIndex) (limit : Nat) : List GraphNode → Prop
  | [] => False
  | first :: behind =>
    index.fits Taken.none first = false ∧ behind.length < limit ∧
      (∀ edge ∈ index.kept first, edge.source.nodeId ∈ (first :: behind).map GraphNode.nodeId ∧
          edge.target.nodeId ∈ (first :: behind).map GraphNode.nodeId) ∧
      ∀ node ∈ behind, ∀ edge ∈ index.incident node.nodeId, edge ∈ index.kept first

instance (limit : Nat) (window : List GraphNode) : Decidable (index.Cramped limit window) :=
  match window with
  | [] => .isFalse id
  | _ :: _ => inferInstanceAs (Decidable (_ ∧ _ ∧ _ ∧ _))

/-! ## The loop of `page` -/

/-- What the loop keeps, with `rest` of the window still to be looked at. -/
structure Taken.Keeps (index : CodeGraphIndex) (limit : Nat) (window rest : List GraphNode)
    (taken : Taken) : Prop where
  split : taken.nodes ++ rest = window
  count : taken.nodes.length ≤ limit
  sublist : ∀ edge ∈ taken.edges, edge ∈ index.edges
  edgeIds : taken.edgeIds.Nodup
  edges_le : taken.edges.length ≤ maxPageEdges
  frontier_le : taken.frontier.card ≤ maxPageLimit
  ends : ∀ edge ∈ taken.edges,
    (edge.source.nodeId ∈ taken.pageIds ∨ edge.source.nodeId ∈ taken.frontier) ∧
      (edge.target.nodeId ∈ taken.pageIds ∨ edge.target.nodeId ∈ taken.frontier)
  /-- Only the first node is taken without all of its edges. -/
  covered : ∀ node ∈ taken.nodes.drop 1, ∀ edge ∈ index.incident node.nodeId, edge ∈ taken.edges
  clipped : taken.truncated = true → ∃ first behind, window = first :: behind ∧
    index.fits Taken.none first = false ∧ (index.kept first).IsPrefix taken.edges
  first : taken.nodes = [] → taken = Taken.none

theorem Taken.keeps_none (limit) (window) : Taken.none.Keeps index limit window window where
  split := rfl
  count := Nat.zero_le _
  sublist := by simp [Taken.none]
  edgeIds := by simp [Taken.none, Taken.edgeIds]
  edges_le := Nat.zero_le _
  frontier_le := by simp [Taken.none]
  ends := by simp [Taken.none]
  covered := by simp [Taken.none]
  clipped := by simp [Taken.none]
  first := fun _ => rfl

@[simp] theorem Taken.pageIds_add (taken : Taken) (node edges frontier) (truncated) :
    (taken.add node edges frontier truncated).pageIds = insert node.nodeId taken.pageIds := by
  ext id
  simp [Taken.pageIds, Taken.add]

theorem Taken.add_edgeIds (taken : Taken) (node edges frontier) (truncated) :
    (taken.add node edges frontier truncated).edgeIds =
      taken.edgeIds ++ edges.map GraphEdge.edgeId := by
  simp [Taken.add, Taken.edgeIds]

theorem Taken.nodup_add (hindex : index.Coherent)
    {edges : List GraphEdge} (hids : taken.edgeIds.Nodup)
    (hedges : edges.Sublist (index.fresh taken node)) :
    (taken.edgeIds ++ edges.map GraphEdge.edgeId).Nodup := by
  refine List.Nodup.append hids ?_ ?_
  · exact (((hedges.trans (index.fresh_sublist taken node)).map _).nodup hindex.edgeIds)
  · intro id hold hnew
    obtain ⟨edge, hedge, rfl⟩ := mem_map.mp hnew
    exact (CodeGraphIndex.mem_fresh.mp (hedges.subset hedge)).2 hold

theorem Taken.Keeps.take (hindex : index.Coherent)
    (h : taken.Keeps index limit window (node :: rest))
    (hroom : taken.nodes.length < limit) (hfits : index.fits taken node = true) :
    (taken.add node (index.fresh taken node) (index.nextFrontier taken node) false).Keeps
      index limit window rest := by
  simp only [CodeGraphIndex.fits, Bool.and_eq_true, decide_eq_true_eq] at hfits
  have hold : ∀ id, id ∈ taken.pageIds ∨ id ∈ taken.frontier →
      id ∈ insert node.nodeId taken.pageIds ∨ id ∈ index.nextFrontier taken node := by
    intro id hid
    simp only [CodeGraphIndex.nextFrontier, Finset.mem_insert, Finset.mem_union, Finset.mem_erase]
    tauto
  have hnew : ∀ edge ∈ index.fresh taken node,
      edge.otherEnd node.nodeId ∈ insert node.nodeId taken.pageIds ∨
        edge.otherEnd node.nodeId ∈ index.nextFrontier taken node := by
    intro edge hedge
    have hmem : edge.otherEnd node.nodeId ∈
        ((index.fresh taken node).map fun edge => edge.otherEnd node.nodeId).toFinset := by
      rw [mem_toFinset]
      exact mem_map_of_mem hedge
    simp only [CodeGraphIndex.nextFrontier, Finset.mem_insert, Finset.mem_union,
      Finset.mem_erase, Finset.mem_sdiff]
    tauto
  exact
    { split := by simpa [Taken.add] using h.split
      count := by simpa [Taken.add, Nat.succ_le_iff] using hroom
      sublist := by
        intro edge hedge
        rcases mem_append.mp hedge with hedge | hedge
        · exact h.sublist edge hedge
        · exact (index.fresh_sublist taken node).subset hedge
      edgeIds := by
        rw [Taken.add_edgeIds]
        exact Taken.nodup_add hindex h.edgeIds (List.Sublist.refl _)
      edges_le := by simpa [Taken.add] using hfits.1
      frontier_le := hfits.2
      ends := by
        intro edge hedge
        rw [Taken.pageIds_add]
        rcases mem_append.mp hedge with hedge | hedge
        · exact ⟨hold _ (h.ends edge hedge).1, hold _ (h.ends edge hedge).2⟩
        have hother := hnew edge hedge
        have hat := (CodeGraphIndex.mem_incident.mp (CodeGraphIndex.mem_fresh.mp hedge).1).2
        have hself : node.nodeId ∈ insert node.nodeId taken.pageIds := Finset.mem_insert_self _ _
        rcases GraphEdge.end_cases hat with ⟨hnode, heq⟩ | ⟨hnode, heq⟩
        · rw [hnode, heq]
          exact ⟨.inl hself, hother⟩
        · rw [hnode, heq]
          exact ⟨hother, .inl hself⟩
      covered := by
        intro other hmem edge hedge
        by_cases hid : edge.edgeId ∈ taken.edgeIds
        · -- the page has the edge already
          obtain ⟨same, hsame, heq⟩ := mem_map.mp hid
          have : same = edge := inj_on_of_nodup_map hindex.edgeIds (h.sublist same hsame)
            (CodeGraphIndex.mem_incident.mp hedge).1 heq
          exact mem_append_left _ (this ▸ hsame)
        have hother : other ∈ taken.nodes.drop 1 ∨ other = node := by
          have : other ∈ taken.nodes.drop 1 ++ [node] := by
            have hdrop : (taken.nodes ++ [node]).drop 1 =
                taken.nodes.drop 1 ++ [node].drop (1 - taken.nodes.length) :=
              drop_append
            rw [show (taken.add node (index.fresh taken node)
              (index.nextFrontier taken node) false).nodes = taken.nodes ++ [node] from rfl,
              hdrop] at hmem
            rcases mem_append.mp hmem with hmem | hmem
            · exact mem_append_left _ hmem
            · exact mem_append_right _ (mem_of_mem_drop hmem)
          simpa using this
        rcases hother with hother | rfl
        · exact mem_append_left _ (h.covered other hother edge hedge)
        · exact mem_append_right _ (CodeGraphIndex.mem_fresh.mpr ⟨hedge, hid⟩)
      clipped := by
        intro htrue
        have htrunc : taken.truncated = true := by simpa [Taken.add] using htrue
        obtain ⟨first, behind, hwindow, hno, hprefix⟩ := h.clipped htrunc
        exact ⟨first, behind, hwindow, hno, hprefix.trans (prefix_append _ _)⟩
      first := by simp [Taken.add] }

theorem Taken.Keeps.clip (hindex : index.Coherent)
    (hroom : 0 < limit) (hfits : index.fits Taken.none node = false) :
    (Taken.none.add node (index.kept node)
      (CodeQueries.clip node.nodeId (index.fresh Taken.none node) ∅).2 true).Keeps
        index limit (node :: rest) rest := by
  have h := clip_clipped node.nodeId (index.fresh Taken.none node)
  exact
    { split := rfl
      count := hroom
      sublist := by
        intro edge hedge
        exact (index.fresh_sublist Taken.none node).subset (h.sublist.subset hedge)
      edgeIds := by
        rw [Taken.add_edgeIds]
        exact Taken.nodup_add hindex (by simp [Taken.none, Taken.edgeIds]) h.sublist
      edges_le := h.edges_le
      frontier_le := h.frontier_le
      ends := by
        intro edge hedge
        rw [Taken.pageIds_add]
        have hself : node.nodeId ∈ insert node.nodeId Taken.none.pageIds :=
          Finset.mem_insert_self _ _
        have hother := h.ends edge hedge
        have hat := (CodeGraphIndex.mem_incident.mp
          (CodeGraphIndex.mem_fresh.mp (h.sublist.subset hedge)).1).2
        have hin : edge.otherEnd node.nodeId ∈ insert node.nodeId Taken.none.pageIds ∨
            edge.otherEnd node.nodeId ∈
              (CodeQueries.clip node.nodeId (index.fresh Taken.none node) ∅).2 := by
          rcases hother with heq | hmem
          · rw [heq]
            exact .inl hself
          · exact .inr hmem
        rcases GraphEdge.end_cases hat with ⟨hnode, heq⟩ | ⟨hnode, heq⟩
        · rw [hnode, heq]
          exact ⟨.inl hself, hin⟩
        · rw [hnode, heq]
          exact ⟨hin, .inl hself⟩
      covered := by simp [Taken.add, Taken.none]
      clipped := by
        intro _
        exact ⟨node, rest, rfl, hfits, prefix_rfl⟩
      first := by simp [Taken.add] }

theorem takeFrom_keeps (hindex : index.Coherent) (rest) (taken)
    (h : taken.Keeps index limit window rest) :
    ∃ rest', (takeFrom index limit rest taken).Keeps index limit window rest' := by
  induction rest generalizing taken with
  | nil => exact ⟨[], h⟩
  | cons node rest ih =>
    unfold takeFrom
    by_cases hlimit : limit ≤ taken.nodes.length
    · rw [if_pos hlimit]
      exact ⟨_, h⟩
    rw [if_neg hlimit]
    by_cases hfits : index.fits taken node = true
    · rw [if_pos hfits]
      exact ih _ (h.take hindex (Nat.not_le.mp hlimit) hfits)
    rw [if_neg hfits]
    by_cases hfirst : taken.nodes = []
    · obtain rfl := h.first hfirst
      obtain rfl : node :: rest = window := h.split
      rw [if_neg (by simp [hfirst])]
      exact ih _ (Taken.Keeps.clip hindex (Nat.not_le.mp hlimit) (by simpa using hfits))
    · rw [if_pos hfirst]
      exact ⟨_, h⟩

theorem CodeGraphIndex.fits_of_kept {first}
    (h : index.kept first = index.fresh Taken.none first) : index.fits Taken.none first = true := by
  have hclip := clip_clipped first.nodeId (index.fresh Taken.none first)
  have hsub : index.nextFrontier Taken.none first ⊆
      (CodeQueries.clip first.nodeId (index.fresh Taken.none first) ∅).2 := by
    intro id hid
    simp only [CodeGraphIndex.nextFrontier, Taken.none, Finset.erase_empty, Finset.empty_union,
      Finset.mem_erase, Finset.mem_sdiff, mem_toFinset, mem_map] at hid
    obtain ⟨hne, ⟨edge, hedge, rfl⟩, -⟩ := hid
    rw [← Taken.none, ← h] at hedge
    exact (hclip.ends edge hedge).resolve_left hne
  have hedges := hclip.edges_le
  have hcard := (Finset.card_le_card hsub).trans hclip.frontier_le
  simp only [CodeGraphIndex.fits, Bool.and_eq_true, decide_eq_true_eq]
  refine ⟨?_, hcard⟩
  rw [← h]
  simpa [Taken.none, CodeGraphIndex.kept] using hedges

theorem CodeGraphIndex.frontier_behind {first behind} (hends : ∀ edge ∈ index.kept first,
      edge.source.nodeId ∈ (first :: behind).map GraphNode.nodeId ∧
        edge.target.nodeId ∈ (first :: behind).map GraphNode.nodeId) :
    (CodeQueries.clip first.nodeId (index.fresh Taken.none first) ∅).2 ⊆
      (behind.map GraphNode.nodeId).toFinset := by
  have hclip := clip_clipped first.nodeId (index.fresh Taken.none first)
  intro id hid
  obtain ⟨hne, edge, hedge, heq⟩ := hclip.frontier id hid
  have hat := (CodeGraphIndex.mem_incident.mp
    (CodeGraphIndex.mem_fresh.mp (hclip.sublist.subset hedge)).1).2
  have hin : id ∈ (first :: behind).map GraphNode.nodeId := by
    rcases GraphEdge.end_cases hat with ⟨-, hend⟩ | ⟨-, hend⟩
    · rw [← heq, ← hend]
      exact (hends edge hedge).2
    · rw [← heq, ← hend]
      exact (hends edge hedge).1
  rw [mem_toFinset]
  exact (mem_cons.mp hin).resolve_left hne

theorem Taken.Keeps.cramped (h : taken.Keeps index limit window []) (hlimit : limit ≤ maxPageLimit)
    (htruncated : taken.truncated = true) (hfrontier : taken.frontier = ∅) :
    index.Cramped limit window := by
  obtain ⟨first, behind, rfl, hfits, more, hmore⟩ := h.clipped htruncated
  have hnodes : taken.nodes = first :: behind := by simpa using h.split
  have hcount : behind.length < limit := by
    have := h.count
    rw [hnodes, length_cons] at this
    omega
  have hends : ∀ edge ∈ index.kept first,
      edge.source.nodeId ∈ (first :: behind).map GraphNode.nodeId ∧
        edge.target.nodeId ∈ (first :: behind).map GraphNode.nodeId := by
    intro edge hedge
    have := h.ends edge (hmore ▸ mem_append_left more hedge)
    simpa [hfrontier, Taken.pageIds, hnodes] using this
  have hclip := clip_clipped first.nodeId (index.fresh Taken.none first)
  refine ⟨hfits, hcount, hends, ?_⟩
  intro node hnode edge hedge
  have hmem : edge ∈ taken.edges := h.covered node (by simpa [hnodes] using hnode) edge hedge
  rcases hclip.full with hall | hlen | hcard
  · rw [CodeGraphIndex.fits_of_kept hall] at hfits
    cases hfits
  · -- the page has no room for further edges
    have hle := h.edges_le
    rw [← hmore, length_append] at hle
    have hkept : (index.kept first).length = maxPageEdges := hlen
    have hnil : more = [] := eq_nil_of_length_eq_zero (by omega)
    rw [← hmore, hnil, append_nil] at hmem
    exact hmem
  · -- the frontier has more ends than the page has nodes
    have hle := Finset.card_le_card (index.frontier_behind hends)
    have hbehind := toFinset_card_le (behind.map GraphNode.nodeId)
    rw [length_map] at hbehind
    omega

/-! ## Answers -/

/-- A query is answered so, or refused. -/
def Outcome.Served {α : Type} (P : α → Prop) : Outcome α → Prop
  | .answered answer => P answer
  | .refused => True
  | .raised _ => False

theorem Outcome.Served.imp {α : Type} {P Q : α → Prop} {outcome : Outcome α}
    (h : outcome.Served P) (himp : ∀ answer, P answer → Q answer) : outcome.Served Q := by
  cases outcome with
  | answered answer => exact himp answer h
  | refused => trivial
  | raised error => exact h.elim

theorem GraphPage.make_served {P} (hvalid : page.valid = true)
    (h : P page) : page.make.Served P := by
  rw [GraphPage.make, if_pos hvalid]
  exact h

theorem GraphPage.checksNode_of (hindex : index.Coherent)
    (hsource : page.source.sourceId = index.sourceId) (hone : node.sourceId = index.sourceId)
    (hnode : node ∈ index.nodes) : page.checksNode node = true := by
  simp [GraphPage.checksNode, hindex.kinds node hnode, hone, hsource]

theorem GraphPage.checksEdge_of (hindex : index.Coherent)
    (hsource : page.source.sourceId = index.sourceId) (hone : edge.sourceId = index.sourceId)
    (hedge : edge ∈ index.edges) (hfrom : page.reaches edge.source = true)
    (hto : page.reaches edge.target = true) : page.checksEdge edge = true := by
  have hends := hindex.endSources edge hedge
  simp [GraphPage.checksEdge, hindex.relations edge hedge, hone, hsource, hends.1,
    hends.2, hfrom, hto]

theorem CodeGraphIndex.mem_pool (h : node ∈ index.pool kinds) : node ∈ index.nodes :=
  mem_of_mem_filter h

theorem pageOf_valid (hindex : index.Coherent)
    (hone : (∀ node ∈ taken.nodes, node.sourceId = index.sourceId) ∧
      ∀ edge ∈ taken.edges, edge.sourceId = index.sourceId)
    (hsource : source.sourceId = index.sourceId) {offset} (hlimit : limit ≤ maxPageLimit) (stamp)
    (h : taken.Keeps index limit ((index.pool kinds).drop offset) rest)
    (hcramped : ¬ index.Cramped limit ((index.pool kinds).drop offset)) :
    (index.pageOf source stamp (index.pool kinds) offset taken).valid = true := by
  have hwindow : taken.nodes.Sublist index.nodes := by
    have : taken.nodes.Sublist ((index.pool kinds).drop offset) := h.split ▸ sublist_append_left _ _
    exact (this.trans (drop_sublist _ _)).trans filter_sublist
  -- an end on the page, or on its frontier
  have hreach : ∀ ref : GraphNodeRef, ref.sourceId = index.sourceId →
      (ref.nodeId ∈ taken.pageIds ∨ ref.nodeId ∈ taken.frontier) →
        (index.pageOf source stamp (index.pool kinds) offset taken).reaches ref = true := by
    intro ref hrefSource hin
    rcases hin with hin | hin
    · simp only [Taken.pageIds, mem_toFinset] at hin
      simp [GraphPage.reaches, CodeGraphIndex.pageOf, GraphPage.nodeIds, hin]
    · have : ref ∈ (index.pageOf source stamp (index.pool kinds) offset taken).frontier := by
        refine mem_map.mpr ⟨ref.nodeId, (Finset.mem_sort _).mpr hin, ?_⟩
        rw [← hrefSource]
      simp [GraphPage.reaches, this]
  have hpageSource : (index.pageOf source stamp (index.pool kinds) offset taken).source.sourceId =
      index.sourceId := hsource
  have hrule : ¬ (offset + taken.nodes.length < (index.pool kinds).length) →
      taken.truncated = true → taken.frontier ≠ ∅ := by
    intro hlast htruncated hempty
    have hrest : rest = [] := by
      have := congrArg List.length h.split
      rw [length_append, length_drop] at this
      exact eq_nil_of_length_eq_zero (by omega)
    exact hcramped (Taken.Keeps.cramped (hrest ▸ h) hlimit htruncated hempty)
  have hcount := h.count
  unfold GraphPage.valid
  simp only [Bool.and_eq_true, decide_eq_true_eq, all_eq_true]
  refine ⟨⟨⟨⟨⟨⟨?_, ?_⟩, ?_⟩, ?_, ?_⟩, ?_, ?_⟩, ?_, ?_⟩, ?_⟩
  · exact hcount.trans hlimit
  · exact h.edges_le
  · simpa [CodeGraphIndex.pageOf] using h.frontier_le
  · exact (hwindow.map _).nodup hindex.nodeIds
  · exact h.edgeIds
  · intro node hnode
    exact GraphPage.checksNode_of hindex hpageSource (hone.1 node hnode) (hwindow.subset hnode)
  · intro edge hedge
    have hmem := h.sublist edge hedge
    have hends := hindex.endSources edge hmem
    have hid := hone.2 edge hedge
    exact GraphPage.checksEdge_of hindex hpageSource hid hmem
      (hreach _ (hends.1.trans hid) (h.ends edge hedge).1)
      (hreach _ (hends.2.trans hid) (h.ends edge hedge).2)
  · rfl
  · rfl
  · by_cases hmore : offset + taken.nodes.length < (index.pool kinds).length
    · simp [CodeGraphIndex.pageOf, hmore]
    by_cases htruncated : taken.truncated = true
    · have hne := hrule hmore htruncated
      have : taken.frontier.sort (· ≤ ·) ≠ [] := by
        intro hnil
        have hcard := Finset.length_sort (s := taken.frontier) (· ≤ ·)
        rw [hnil] at hcard
        exact hne (Finset.card_eq_zero.mp hcard.symm)
      simp [CodeGraphIndex.pageOf, this]
    · simp [CodeGraphIndex.pageOf, hmore, htruncated]

theorem page_served (hindex : index.Coherent) (hone : index.OneSource)
    (hsource : source.sourceId = index.sourceId) (hlimit : limit ≤ maxPageLimit) {cursor}
    (hcramped : ∀ offset, decode cursor (index.pageStamp texts kinds) = some offset →
      ¬ index.Cramped limit ((index.pool kinds).drop offset)) :
    (index.page texts source limit cursor kinds).Served
      fun page => ∀ node ∈ page.nodes, node ∈ index.nodes := by
  unfold CodeGraphIndex.page
  cases hoffset : decode cursor (index.pageStamp texts kinds) with
  | none => trivial
  | some offset =>
    dsimp only
    split
    · trivial
    have hnone : Taken.none.Keeps index limit ((index.pool kinds).drop offset)
        ((index.pool kinds).drop offset) := Taken.keeps_none _ _
    obtain ⟨rest, hkeeps⟩ := takeFrom_keeps hindex _ _ hnone
    have hnodes : ∀ node ∈ (takeFrom index limit ((index.pool kinds).drop offset)
        Taken.none).nodes, node ∈ index.nodes := by
      intro node hnode
      have : node ∈ (index.pool kinds).drop offset := hkeeps.split ▸ mem_append_left _ hnode
      exact CodeGraphIndex.mem_pool (mem_of_mem_drop this)
    have hones := And.intro (fun node hnode => hone.1 node (hnodes node hnode))
      fun edge hedge => hone.2 edge (hkeeps.sublist edge hedge)
    exact GraphPage.make_served
      (pageOf_valid hindex hones hsource hlimit _ hkeeps (hcramped offset hoffset)) hnodes

theorem CodeGraphIndex.byId_some
    (h : index.byId nodeId = some node) : node ∈ index.nodes ∧ node.nodeId = nodeId := by
  have hmem := List.mem_of_find?_eq_some h
  have hid := List.find?_some h
  exact ⟨mem_reverse.mp hmem, by simpa using hid⟩

theorem CodeGraphIndex.neighbours_length (hindex : index.Coherent)
    (center window) : (index.neighbours center window).length ≤ window.length + 1 := by
  have hnodup : ((index.neighbours center window).map GraphNode.nodeId).Nodup :=
    (filter_sublist.map _).nodup hindex.nodeIds
  have hsub : (index.neighbours center window).map GraphNode.nodeId ⊆
      center.nodeId :: window.map fun edge => edge.otherEnd center.nodeId := by
    intro id hid
    obtain ⟨node, hnode, rfl⟩ := mem_map.mp hid
    have := (mem_filter.mp hnode).2
    simpa using this
  have := (hnodup.subperm hsub).length_le
  simpa using this

theorem CodeGraphIndex.mem_neighbours {window id} (hknown : id ∈ index.nodes.map GraphNode.nodeId)
    (hid : id = center.nodeId ∨ id ∈ window.map fun edge => edge.otherEnd center.nodeId) :
    id ∈ (index.neighbours center window).map GraphNode.nodeId := by
  obtain ⟨node, hnode, rfl⟩ := mem_map.mp hknown
  refine mem_map_of_mem (mem_filter.mpr ⟨hnode, ?_⟩)
  simpa using hid

theorem expansionOf_valid (hindex : index.Coherent) (hone : index.OneSource)
    (hsource : source.sourceId = index.sourceId) (stamp) {incident}
    (hincident : incident.Sublist (index.incident center.nodeId)) (limit offset) :
    (index.expansionOf source stamp center incident limit offset).valid = true := by
  set window := (incident.drop offset).take (min limit expandNodeCap) with hwindow
  have hsub : window.Sublist (index.incident center.nodeId) :=
    ((take_sublist _ _).trans (drop_sublist _ _)).trans hincident
  have hlen : window.length ≤ expandNodeCap := by
    rw [hwindow, length_take]
    omega
  have hcap : expandNodeCap + 1 = maxPageLimit := rfl
  have hpageSource : (index.expansionOf source stamp center incident limit offset).source.sourceId =
      index.sourceId := hsource
  have hreach : ∀ ref : GraphNodeRef, ref.nodeId ∈ index.nodes.map GraphNode.nodeId →
      (ref.nodeId = center.nodeId ∨
        ref.nodeId ∈ window.map fun edge => edge.otherEnd center.nodeId) →
      (index.expansionOf source stamp center incident limit offset).reaches ref = true := by
    intro ref hknown hid
    have : ref.nodeId ∈
        (index.expansionOf source stamp center incident limit offset).nodeIds :=
      index.mem_neighbours hknown hid
    simp [GraphPage.reaches, this]
  unfold GraphPage.valid
  simp only [Bool.and_eq_true, decide_eq_true_eq, all_eq_true]
  refine ⟨⟨⟨⟨⟨⟨?_, ?_⟩, ?_⟩, ?_, ?_⟩, ?_, ?_⟩, ?_, ?_⟩, ?_⟩
  · have := index.neighbours_length hindex center window
    exact this.trans (by omega)
  · show window.length ≤ maxPageEdges
    exact hlen.trans (by decide)
  · simp [CodeGraphIndex.expansionOf]
  · exact (filter_sublist.map _).nodup hindex.nodeIds
  · exact ((hsub.trans filter_sublist).map _).nodup hindex.edgeIds
  · intro node hnode
    have hmem := mem_of_mem_filter hnode
    exact GraphPage.checksNode_of hindex hpageSource (hone.1 node hmem) hmem
  · intro edge hedge
    obtain ⟨hmem, hat⟩ := CodeGraphIndex.mem_incident.mp (hsub.subset hedge)
    have hknown := hindex.known edge hmem
    have hother : edge.otherEnd center.nodeId ∈
        window.map fun edge => edge.otherEnd center.nodeId := mem_map_of_mem hedge
    rcases GraphEdge.end_cases hat with ⟨hnode, heq⟩ | ⟨hnode, heq⟩
    · exact GraphPage.checksEdge_of hindex hpageSource (hone.2 edge hmem) hmem
        (hreach _ hknown.1 (.inl hnode)) (hreach _ hknown.2 (.inr (heq ▸ hother)))
    · exact GraphPage.checksEdge_of hindex hpageSource (hone.2 edge hmem) hmem
        (hreach _ hknown.1 (.inr (heq ▸ hother))) (hreach _ hknown.2 (.inl hnode))
  · rfl
  · rfl
  · by_cases hmore : offset + window.length < incident.length
    · simp [CodeGraphIndex.expansionOf, ← hwindow, hmore]
    · simp [CodeGraphIndex.expansionOf, ← hwindow, hmore]

theorem expand_served (hindex : index.Coherent) (hone : index.OneSource)
    (hsource : source.sourceId = index.sourceId) (nodeId) (direction relations) (limit) (cursor) :
    (index.expand texts source nodeId direction relations limit cursor).Served
      fun page => ∀ node ∈ page.nodes, node ∈ index.nodes := by
  unfold CodeGraphIndex.expand
  cases hcenter : index.byId nodeId with
  | none => trivial
  | some center =>
    obtain ⟨-, rfl⟩ := index.byId_some hcenter
    dsimp only
    split
    · trivial
    split
    · trivial
    · refine GraphPage.make_served
        (expansionOf_valid hindex hone hsource _ filter_sublist limit _) ?_
      intro node hnode
      exact mem_of_mem_filter hnode

def CodeSymbolRef.Of (ref : CodeSymbolRef) (node : GraphNode) : Prop :=
  ref.nodeId = node.nodeId ∧ ref.kind = node.kind ∧ ref.name = node.label ∧
    some ref.uri = node.uri

theorem hitOf_some {hit}
    (h : hitOf texts needle kinds node = some hit) : hit.node = node ∧ node.uri ≠ none := by
  unfold hitOf at h
  dsimp only at h
  split at h
  · cases h
  rename_i hno
  have huri : node.uri ≠ none := by
    intro hnone
    simp [hnone] at hno
  split at h
  · cases h
    exact ⟨rfl, huri⟩
  split at h
  · cases h
    exact ⟨rfl, huri⟩
  · split at h
    · cases h
      exact ⟨rfl, huri⟩
    · cases h

theorem CodeGraphIndex.mem_hits {hit} (h : hit ∈ index.hits texts needle kinds) :
    hit.node ∈ index.nodes ∧ hit.ref.Of hit.node := by
  have hperm := perm_insertionSort (fun first second : SearchHit => first.upTo second)
    (index.nodes.filterMap (hitOf texts needle kinds))
  obtain ⟨node, hnode, hhit⟩ := mem_filterMap.mp (hperm.mem_iff.mp h)
  obtain ⟨rfl, huri⟩ := hitOf_some hhit
  obtain ⟨uri, huri⟩ := Option.ne_none_iff_exists'.mp huri
  exact ⟨hnode, rfl, rfl, rfl, by simp [SearchHit.ref, huri]⟩

/-- `search` answers with symbols of nodes of the index, or refuses the cursor. -/
theorem search_served (hindex : index.Coherent) (name) (kinds) (limit) (cursor) :
    (index.search texts name kinds limit cursor).Served fun result =>
      result.1.length ≤ limit ∧ ∀ ref ∈ result.1, ∃ node ∈ index.nodes, ref.Of node := by
  unfold CodeGraphIndex.search
  dsimp only
  split
  · trivial
  rename_i offset _
  split
  · trivial
  set needle := texts.lower (Text.strip name)
  have hrefs : ∀ ref ∈ (((index.hits texts needle kinds).drop offset).take limit).map
      SearchHit.ref, ∃ node ∈ index.nodes, ref.Of node := by
    intro ref href
    obtain ⟨hit, hhit, rfl⟩ := mem_map.mp href
    have := index.mem_hits (mem_of_mem_drop (mem_of_mem_take hhit))
    exact ⟨hit.node, this.1, this.2⟩
  rw [if_pos]
  · refine ⟨?_, hrefs⟩
    rw [length_map, length_take]
    omega
  · rw [all_eq_true]
    intro ref href
    obtain ⟨node, hnode, -, -, -, huri⟩ := hrefs ref href
    exact hindex.uris node hnode ref.uri huri.symm

end Index

end StudioOS.CodeQueries
