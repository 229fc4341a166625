import Mathlib.Data.Char
import Mathlib.Data.Finset.Sort
import Mathlib.Data.List.Lex
import StudioOS.Library.Text

/-!
# Code queries — Index

`CodeGraphIndex`: the nodes and edges of the snapshots of a workspace in one
order, and what `page`, `expand` and `search` answer from them.
-/

namespace StudioOS.CodeQueries

abbrev Text := List Char

def maxPageLimit : Nat := 500

def maxPageEdges : Nat := maxPageLimit * 2

def expandNodeCap : Nat := maxPageLimit - 1

def maxSearchResults : Nat := 100

/-! ## The graph schema -/

inductive NodeKind where
  | document | heading | tag | file | package | module | class_ | function
deriving DecidableEq

inductive RelationKind where
  | linksTo | taggedWith | embeds | contains | imports | calls | defines | inherits | references
  | documents
deriving DecidableEq

def codeNodeKinds : List NodeKind := [.file, .package, .module, .class_, .function]

def codeRelations : List RelationKind :=
  [.imports, .calls, .defines, .inherits, .references, .contains]

structure GraphNodeRef where
  sourceId : Text
  nodeId : Text
deriving DecidableEq

/-- `GraphNode`; `sourceId` is the one of its provenance. -/
structure GraphNode where
  nodeId : Text
  kind : NodeKind
  label : Text
  uri : Option Text
  sourceId : Text

/-- `GraphEdge`; `sourceId` is the one of its provenance. -/
structure GraphEdge where
  edgeId : Text
  kind : RelationKind
  source : GraphNodeRef
  target : GraphNodeRef
  sourceId : Text
deriving DecidableEq

/-- `GraphSource`, of the code. -/
structure GraphSource where
  sourceId : Text
  providerId : Text
  workspaceId : Nat
  generatedAt : Nat
  indexFingerprint : Text

structure GraphCounts where
  nodes : Nat
  edges : Nat
  totalNodes : Option Nat
  totalEdges : Option Nat

structure GraphPage where
  source : GraphSource
  nodes : List GraphNode
  edges : List GraphEdge
  frontier : List GraphNodeRef
  nextCursor : Option Text
  truncated : Bool
  counts : GraphCounts

def GraphPage.nodeIds (page : GraphPage) : List Text := page.nodes.map GraphNode.nodeId

def GraphPage.edgeIds (page : GraphPage) : List Text := page.edges.map GraphEdge.edgeId

/-- The page has the end, or its frontier. -/
def GraphPage.reaches (page : GraphPage) (ref : GraphNodeRef) : Bool :=
  ref.nodeId ∈ page.nodeIds || ref ∈ page.frontier

/-- What `_well_formed` asks of a node. -/
def GraphPage.checksNode (page : GraphPage) (node : GraphNode) : Bool :=
  node.kind ∈ codeNodeKinds && node.sourceId = page.source.sourceId

/-- What `_well_formed` and `_check_endpoints` ask of an edge. -/
def GraphPage.checksEdge (page : GraphPage) (edge : GraphEdge) : Bool :=
  edge.kind ∈ codeRelations && edge.sourceId = page.source.sourceId &&
    (edge.source.sourceId = page.source.sourceId && page.reaches edge.source) &&
    (edge.target.sourceId = page.source.sourceId && page.reaches edge.target)

/-- The bounds of the fields of a `GraphPage`, and `_well_formed`. -/
def GraphPage.valid (page : GraphPage) : Bool :=
  (page.nodes.length ≤ maxPageLimit && page.edges.length ≤ maxPageEdges &&
      page.frontier.length ≤ maxPageLimit) &&
    (decide page.nodeIds.Nodup && decide page.edgeIds.Nodup) &&
    (page.nodes.all page.checksNode && page.edges.all page.checksEdge) &&
    (page.counts.nodes = page.nodes.length && page.counts.edges = page.edges.length) &&
    !(page.nextCursor = none && page.truncated && page.frontier = [])

/-- A resource URI of the code starts with this. -/
def codeUri : Text := "studio-local://code/".toList

structure CodeSymbolRef where
  nodeId : Text
  kind : NodeKind
  name : Text
  uri : Text

/-- `_code_uri`. -/
def CodeSymbolRef.valid (ref : CodeSymbolRef) : Bool := codeUri.isPrefixOf ref.uri

/-- An exception that is no `CodeGraphQueryError`. -/
inductive Raised where
  | assertionError
  /-- `max` of nothing. -/
  | valueError
  | validationError

/-- How a query ends: `refused` is `InvalidCursorError`, `UnknownNodeError`
and `CodeGraphQueryError`. -/
inductive Outcome (α : Type) where
  | answered (answer : α)
  | refused
  | raised (error : Raised)

/-- `GraphPage(...)`. -/
def GraphPage.make (page : GraphPage) : Outcome GraphPage :=
  if page.valid then .answered page else .raised .validationError

/-- `_stamp`, a digest of texts, and `str.lower`. -/
structure Texts where
  stamp : List Text → Text
  lower : Text → Text

def encode (stamp : Text) (offset : Nat) : Text := stamp ++ '.' :: Nat.toDigits 10 offset

/-- `int(tail)`, of digits. -/
def intOf (digits : Text) : Nat :=
  digits.foldl (fun n digit => 10 * n + (digit.toNat - '0'.toNat)) 0

/-- `_decode`; `none` is an `InvalidCursorError`. -/
def decode (cursor : Option Text) (stamp : Text) : Option Nat :=
  match cursor with
  | none => some 0
  | some cursor =>
    let head := cursor.takeWhile (· ≠ '.')
    let tail := (cursor.dropWhile (· ≠ '.')).drop 1
    if head = stamp ∧ tail ≠ [] ∧ tail.all Char.isDigit then some (intOf tail) else none

/-! ## The index -/

def GraphEdge.otherEnd (edge : GraphEdge) (nodeId : Text) : Text :=
  if edge.source.nodeId = nodeId then edge.target.nodeId else edge.source.nodeId

/-- `CodeGraphIndex`, as `__init__` leaves it. -/
structure CodeGraphIndex where
  sourceId : Text
  fingerprint : Text
  nodes : List GraphNode
  edges : List GraphEdge

/-- `CodeGraphIndex(...)`. -/
def CodeGraphIndex.make (sourceId fingerprint : Text) (nodes : List GraphNode)
    (edges : List GraphEdge) : CodeGraphIndex :=
  { sourceId := sourceId
    fingerprint := fingerprint
    nodes := nodes.insertionSort fun first second => first.nodeId ≤ second.nodeId
    edges := (edges.filter fun edge =>
        edge.source.nodeId ∈ nodes.map GraphNode.nodeId &&
          edge.target.nodeId ∈ nodes.map GraphNode.nodeId).insertionSort
      fun first second => first.edgeId ≤ second.edgeId }

section Index

variable (texts : Texts) (index : CodeGraphIndex)

def CodeGraphIndex.byId (nodeId : Text) : Option GraphNode :=
  index.nodes.reverse.find? fun node => node.nodeId = nodeId

def CodeGraphIndex.incident (nodeId : Text) : List GraphEdge :=
  index.edges.filter fun edge => edge.source.nodeId = nodeId || edge.target.nodeId = nodeId

/-- The name of a kind, for the stamp of a cursor. -/
def NodeKind.value : NodeKind → Text
  | .document => "document".toList
  | .heading => "heading".toList
  | .tag => "tag".toList
  | .file => "file".toList
  | .package => "package".toList
  | .module => "module".toList
  | .class_ => "class".toList
  | .function => "function".toList

def RelationKind.value : RelationKind → Text
  | .linksTo => "links_to".toList
  | .taggedWith => "tagged_with".toList
  | .embeds => "embeds".toList
  | .contains => "contains".toList
  | .imports => "imports".toList
  | .calls => "calls".toList
  | .defines => "defines".toList
  | .inherits => "inherits".toList
  | .references => "references".toList
  | .documents => "documents".toList

/-- `sorted(kind.value for kind in wanted)`, of a set. -/
def sortedValues (values : List Text) : List Text := values.toFinset.sort (· ≤ ·)

/-! ### Pages -/

/-- What the loop of `page` has so far. -/
structure Taken where
  nodes : List GraphNode
  edges : List GraphEdge
  frontier : Finset Text
  truncated : Bool

def Taken.none : Taken := { nodes := [], edges := [], frontier := ∅, truncated := false }

def Taken.pageIds (taken : Taken) : Finset Text := (taken.nodes.map GraphNode.nodeId).toFinset

def Taken.edgeIds (taken : Taken) : List Text := taken.edges.map GraphEdge.edgeId

/-- `fresh`: the edges of the node that the page does not have. -/
def CodeGraphIndex.fresh (taken : Taken) (node : GraphNode) : List GraphEdge :=
  (index.incident node.nodeId).filter fun edge => edge.edgeId ∉ taken.edgeIds

def CodeGraphIndex.nextFrontier (taken : Taken) (node : GraphNode) : Finset Text :=
  let others := ((index.fresh taken node).map fun edge => edge.otherEnd node.nodeId).toFinset
  taken.frontier.erase node.nodeId ∪ ((others \ taken.pageIds).erase node.nodeId)

def CodeGraphIndex.fits (taken : Taken) (node : GraphNode) : Bool :=
  taken.edges.length + (index.fresh taken node).length ≤ maxPageEdges &&
    (index.nextFrontier taken node).card ≤ maxPageLimit

/-- One round of the loop of `_clip`. -/
def clipEdge (nodeId : Text) (pageIds : Finset Text) (clipped : List GraphEdge × Finset Text)
    (edge : GraphEdge) : List GraphEdge × Finset Text :=
  let other := edge.otherEnd nodeId
  let adds : Bool := other ∉ pageIds && other ≠ nodeId && other ∉ clipped.2
  if maxPageEdges ≤ clipped.1.length || (adds && maxPageLimit ≤ clipped.2.card) then clipped
  else (clipped.1 ++ [edge], if other ≠ nodeId then insert other clipped.2 else clipped.2)

def clip (nodeId : Text) (fresh : List GraphEdge) (pageIds : Finset Text) :
    List GraphEdge × Finset Text :=
  fresh.foldl (clipEdge nodeId pageIds) ([], ∅)

/-- The page with the node, its edges and the frontier of both. -/
def Taken.add (taken : Taken) (node : GraphNode) (edges : List GraphEdge)
    (frontier : Finset Text) (truncated : Bool) : Taken :=
  { nodes := taken.nodes ++ [node]
    edges := taken.edges ++ edges
    frontier := frontier
    truncated := taken.truncated || truncated }

/-- The loop of `page` over the pool from the offset on. -/
def takeFrom (limit : Nat) : List GraphNode → Taken → Taken
  | [], taken => taken
  | node :: rest, taken =>
    if limit ≤ taken.nodes.length then taken
    else if index.fits taken node then
      takeFrom limit rest
        (taken.add node (index.fresh taken node) (index.nextFrontier taken node) false)
    else if taken.nodes ≠ [] then taken
    else
      let clipped := clip node.nodeId (index.fresh taken node) taken.pageIds
      takeFrom limit rest (taken.add node clipped.1 clipped.2 true)

/-- The nodes of the kinds asked for. -/
def CodeGraphIndex.pool (kinds : List NodeKind) : List GraphNode :=
  index.nodes.filter fun node => kinds = [] || node.kind ∈ kinds

def CodeGraphIndex.pageStamp (kinds : List NodeKind) : Text :=
  texts.stamp (index.fingerprint :: sortedValues (kinds.map NodeKind.value))

/-- What `page` hands to the contract. -/
def CodeGraphIndex.pageOf (source : GraphSource) (stamp : Text) (pool : List GraphNode)
    (offset : Nat) (taken : Taken) : GraphPage :=
  let hasMore : Bool := offset + taken.nodes.length < pool.length
  { source := source
    nodes := taken.nodes
    edges := taken.edges
    frontier := (taken.frontier.sort (· ≤ ·)).map fun item =>
      { sourceId := index.sourceId, nodeId := item }
    nextCursor := if hasMore then some (encode stamp (offset + taken.nodes.length)) else none
    truncated := hasMore || taken.truncated
    counts :=
      { nodes := taken.nodes.length
        edges := taken.edges.length
        totalNodes := some pool.length
        totalEdges := some index.edges.length } }

def CodeGraphIndex.page (source : GraphSource) (limit : Nat) (cursor : Option Text)
    (kinds : List NodeKind) : Outcome GraphPage :=
  match decode cursor (index.pageStamp texts kinds) with
  | none => .refused
  | some offset =>
    let pool := index.pool kinds
    if pool.length < offset then .refused
    else
      (index.pageOf source (index.pageStamp texts kinds) pool offset
        (takeFrom index limit (pool.drop offset) Taken.none)).make

/-! ### Expansions -/

inductive GraphDirection where
  | out
  | in_
  | both

def GraphDirection.value : GraphDirection → Text
  | .out => "out".toList
  | .in_ => "in".toList
  | .both => "both".toList

def GraphDirection.selects (direction : GraphDirection) (nodeId : Text) (edge : GraphEdge) : Bool :=
  match direction with
  | .both => true
  | .out => edge.source.nodeId = nodeId
  | .in_ => edge.target.nodeId = nodeId

def CodeGraphIndex.expandStamp (nodeId : Text) (direction : GraphDirection)
    (relations : List RelationKind) : Text :=
  texts.stamp (index.fingerprint :: nodeId :: direction.value ::
    sortedValues (relations.map RelationKind.value))

/-- The edges that `expand` goes along. -/
def CodeGraphIndex.expandEdges (nodeId : Text) (direction : GraphDirection)
    (relations : List RelationKind) : List GraphEdge :=
  (index.incident nodeId).filter fun edge =>
    (relations = [] || edge.kind ∈ relations) && direction.selects nodeId edge

/-- `neighbours`, in the order of their ids: the center, and the other ends of
the edges. -/
def CodeGraphIndex.neighbours (center : GraphNode) (window : List GraphEdge) : List GraphNode :=
  index.nodes.filter fun node =>
    node.nodeId = center.nodeId ||
      node.nodeId ∈ window.map fun edge => edge.otherEnd center.nodeId

/-- What `expand` hands to the contract. -/
def CodeGraphIndex.expansionOf (source : GraphSource) (stamp : Text) (center : GraphNode)
    (incident : List GraphEdge) (limit offset : Nat) : GraphPage :=
  let window := (incident.drop offset).take (min limit expandNodeCap)
  let neighbours := index.neighbours center window
  let hasMore : Bool := offset + window.length < incident.length
  { source := source
    nodes := neighbours
    edges := window
    frontier := []
    nextCursor := if hasMore then some (encode stamp (offset + window.length)) else none
    truncated := hasMore
    counts :=
      { nodes := neighbours.length
        edges := window.length
        totalNodes := none
        totalEdges := some incident.length } }

def CodeGraphIndex.expand (source : GraphSource) (nodeId : Text) (direction : GraphDirection)
    (relations : List RelationKind) (limit : Nat) (cursor : Option Text) : Outcome GraphPage :=
  match index.byId nodeId with
  | none => .refused
  | some center =>
    let stamp := index.expandStamp texts nodeId direction relations
    match decode cursor stamp with
    | none => .refused
    | some offset =>
      let incident := index.expandEdges nodeId direction relations
      if incident.length < offset then .refused
      else (index.expansionOf source stamp center incident limit offset).make

/-! ### Symbols -/

structure SearchHit where
  rank : Nat
  label : Text
  node : GraphNode

/-- `label.rsplit(".", 1)[-1]`. -/
def tailOf (label : Text) : Text := (label.reverse.takeWhile (· ≠ '.')).reverse

def hitOf (needle : Text) (kinds : List NodeKind) (node : GraphNode) : Option SearchHit :=
  let label := texts.lower node.label
  let tail := tailOf label
  if node.uri = none || !(kinds = [] || node.kind ∈ kinds) then none
  else if needle = label || needle = tail then some ⟨0, label, node⟩
  else if needle.isPrefixOf label || needle.isPrefixOf tail then some ⟨1, label, node⟩
  else if Text.contains needle label then some ⟨2, label, node⟩
  else none

def SearchHit.upTo (first second : SearchHit) : Bool :=
  first.rank < second.rank ||
    (first.rank = second.rank && (first.label < second.label ||
        (first.label = second.label && first.node.nodeId ≤ second.node.nodeId)))

def SearchHit.ref (hit : SearchHit) : CodeSymbolRef :=
  { nodeId := hit.node.nodeId
    kind := hit.node.kind
    name := hit.node.label
    uri := hit.node.uri.getD [] }

/-- The hits of `search`, in order. -/
def CodeGraphIndex.hits (needle : Text) (kinds : List NodeKind) : List SearchHit :=
  (index.nodes.filterMap (hitOf texts needle kinds)).insertionSort fun first second =>
    first.upTo second

def CodeGraphIndex.search (name : Text) (kinds : List NodeKind) (limit : Nat)
    (cursor : Option Text) : Outcome (List CodeSymbolRef × Option Text) :=
  let needle := texts.lower (Text.strip name)
  let stamp := texts.stamp (index.fingerprint :: needle :: sortedValues (kinds.map NodeKind.value))
  match decode cursor stamp with
  | none => .refused
  | some offset =>
    let hits := index.hits texts needle kinds
    if hits.length < offset then .refused
    else
      let refs := ((hits.drop offset).take limit).map SearchHit.ref
      let next := offset + refs.length
      if refs.all CodeSymbolRef.valid then
        .answered (refs, if next < hits.length then some (encode stamp next) else none)
      else .raised .validationError

end Index

theorem GraphEdge.end_cases {edge : GraphEdge} {nodeId : Text}
    (h : edge.source.nodeId = nodeId ∨ edge.target.nodeId = nodeId) :
    (edge.source.nodeId = nodeId ∧ edge.target.nodeId = edge.otherEnd nodeId) ∨
      (edge.target.nodeId = nodeId ∧ edge.source.nodeId = edge.otherEnd nodeId) := by
  by_cases hsource : edge.source.nodeId = nodeId
  · left
    simp [GraphEdge.otherEnd, hsource]
  · right
    have htarget : edge.target.nodeId = nodeId := h.resolve_left hsource
    simp [GraphEdge.otherEnd, hsource, htarget]

/-- What `_clip` has made of the edges it looked at, on an empty page. -/
structure Clipped (nodeId : Text) (seen : List GraphEdge)
    (clipped : List GraphEdge × Finset Text) : Prop where
  sublist : clipped.1.Sublist seen
  edges_le : clipped.1.length ≤ maxPageEdges
  frontier_le : clipped.2.card ≤ maxPageLimit
  ends : ∀ edge ∈ clipped.1, edge.otherEnd nodeId = nodeId ∨ edge.otherEnd nodeId ∈ clipped.2
  frontier : ∀ id ∈ clipped.2, id ≠ nodeId ∧ ∃ edge ∈ clipped.1, edge.otherEnd nodeId = id
  /-- An edge is left out only where there is no room. -/
  full : clipped.1 = seen ∨ clipped.1.length = maxPageEdges ∨ clipped.2.card = maxPageLimit

theorem Clipped.nil (nodeId) : Clipped nodeId [] ([], ∅) where
  sublist := List.Sublist.refl _
  edges_le := by simp
  frontier_le := by simp
  ends := by simp
  frontier := by simp
  full := .inl rfl

theorem Clipped.clipEdge {nodeId seen clipped} (h : Clipped nodeId seen clipped) (edge) :
    Clipped nodeId (seen ++ [edge]) (clipEdge nodeId ∅ clipped edge) := by
  obtain ⟨kept, frontier⟩ := clipped
  unfold CodeQueries.clipEdge
  dsimp only
  split
  · -- the edge is left out
    rename_i hno
    exact
      { sublist := h.sublist.trans (List.sublist_append_left _ _)
        edges_le := h.edges_le
        frontier_le := h.frontier_le
        ends := h.ends
        frontier := h.frontier
        full := by
          simp only [Bool.or_eq_true, Bool.and_eq_true, decide_eq_true_eq] at hno
          rcases hno with hedges | ⟨-, hfront⟩
          · exact .inr (.inl (Nat.le_antisymm h.edges_le hedges))
          · exact .inr (.inr (Nat.le_antisymm h.frontier_le hfront)) }
  · rename_i hno
    simp only [Bool.or_eq_true, Bool.and_eq_true, decide_eq_true_eq, not_or, not_and,
      Nat.not_le] at hno
    obtain ⟨hedges, hfront⟩ := hno
    -- the end of the edge is on the frontier, or there is room for it
    have hroom : edge.otherEnd nodeId ≠ nodeId →
        (insert (edge.otherEnd nodeId) frontier).card ≤ maxPageLimit := by
      intro hne
      by_cases hmem : edge.otherEnd nodeId ∈ frontier
      · rw [Finset.insert_eq_of_mem hmem]
        exact h.frontier_le
      · rw [Finset.card_insert_of_notMem hmem]
        exact hfront (by simp [hne, hmem])
    have hfull : kept = seen ∨ kept.length = maxPageEdges ∨ frontier.card = maxPageLimit := h.full
    refine
      { sublist := h.sublist.append (List.Sublist.refl _)
        edges_le := by simpa [Nat.succ_le_iff] using hedges
        frontier_le := ?_
        ends := ?_
        frontier := ?_
        full := ?_ }
    · split
      · exact hroom ‹_›
      · exact h.frontier_le
    · intro other hother
      rcases List.mem_append.mp hother with hother | hother
      · rcases h.ends other hother with heq | hmem
        · exact .inl heq
        · right
          split
          · exact Finset.mem_insert_of_mem hmem
          · exact hmem
      · rw [List.mem_singleton.mp hother]
        by_cases heq : edge.otherEnd nodeId = nodeId
        · exact .inl heq
        · right
          rw [if_pos heq]
          exact Finset.mem_insert_self _ _
    · intro id hid
      have hold : id ∈ frontier → id ≠ nodeId ∧
          ∃ other ∈ kept ++ [edge], other.otherEnd nodeId = id := by
        intro hmem
        obtain ⟨hne, other, hother, heq⟩ := h.frontier id hmem
        exact ⟨hne, other, List.mem_append_left _ hother, heq⟩
      split at hid
      · rename_i hne
        rcases Finset.mem_insert.mp hid with rfl | hmem
        · exact ⟨hne, edge, by simp, rfl⟩
        · exact hold hmem
      · exact hold hid
    · rcases hfull with heq | hlen | hcard
      · left
        rw [heq]
      · have : kept.length < maxPageEdges := hedges
        omega
      -- no room on the frontier: the edge has brought no new end
      right
      right
      split
      · rename_i hne
        by_cases hmem : edge.otherEnd nodeId ∈ frontier
        · rw [Finset.insert_eq_of_mem hmem]
          exact hcard
        · have : frontier.card < maxPageLimit := hfront (by simp [hne, hmem])
          omega
      · exact hcard

theorem clip_clipped (nodeId) (fresh) : Clipped nodeId fresh (clip nodeId fresh ∅) := by
  induction fresh using List.reverseRecOn with
  | nil => exact .nil nodeId
  | append_singleton fresh edge ih =>
    have heq : clip nodeId (fresh ++ [edge]) ∅ =
        clipEdge nodeId ∅ (clip nodeId fresh ∅) edge := by
      simp [clip]
    rw [heq]
    exact ih.clipEdge edge

end StudioOS.CodeQueries
