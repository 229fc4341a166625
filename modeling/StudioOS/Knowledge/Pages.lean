import StudioOS.Knowledge.Graph

/-!
# Knowledge — Pages

`graph_page` and `graph_expand` of the knowledge provider, over an index that
is READY or STALE: a page is a window of nodes with the edges at them, and a
frontier for the ends of these edges that are elsewhere.
-/

namespace StudioOS.Knowledge

open Deduped

/-- `contains_secret_material` and `contains_absolute_path`; neither finds
anything in the fallback of a label. -/
structure Patterns where
  secret : Text → Bool
  absolute : Text → Bool
  untitled : secret "untitled".toList = false ∧ absolute "untitled".toList = false

def Patterns.isSafe (patterns : Patterns) (text : Text) : Bool :=
  !patterns.secret text && !patterns.absolute text

def isIdChar (c : Char) : Bool := c.isAlphanum || c ∈ ['_', '.', ':', '-']

def Patterns.opaqueId (patterns : Patterns) (id : Text) : Bool :=
  1 ≤ id.length && id.length ≤ 200 && id.all isIdChar && !patterns.secret id

def Patterns.shortText (patterns : Patterns) (text : Text) : Bool :=
  1 ≤ text.length && text.length ≤ 200 && patterns.isSafe text

/-- `text.split()`. -/
def splitBlank (text : Text) : List Text := (text.splitOnP Text.isSpace).filter (· ≠ [])

def Patterns.safeShortText (patterns : Patterns) (candidate : Text) : Text :=
  let text := (List.intercalate [' '] (splitBlank candidate)).take 200
  if patterns.shortText text then text
  else
    let kept := (List.intercalate [' '] ((splitBlank text).filter patterns.isSafe)).take 200
    if patterns.shortText kept then kept else "untitled".toList

/-- The path of the URI of a document; a `ValueError` is `none`. -/
def Env.parseLocalUri (env : Env) (uri : Text) : Option Path :=
  let path := uri.drop (env.uri []).length
  if env.buildLocalUri path none = some uri then some path else none

/-! ## Pages -/

/-- `GraphNode`; `path` is its metadata. -/
structure GraphNode where
  nodeId : Text
  kind : NodeKind
  label : Text
  uri : Option Text
  extractor : String
  evidence : Text
  path : Option Path

/-- `GraphPage`, of one source; the cursor `n:<offset>` is its offset. -/
structure GraphPage where
  nodes : List GraphNode
  edges : List GraphEdgeRow
  frontier : List Text
  nextCursor : Option Nat
  truncated : Bool
  countNodes : Nat
  countEdges : Nat
  totalNodes : Nat
  totalEdges : Nat

def GraphPage.nodeIds (page : GraphPage) : List Text := page.nodes.map GraphNode.nodeId

def GraphPage.edgeIds (page : GraphPage) : List Text := page.edges.map GraphEdgeRow.edgeId

def maxPageLimit : Nat := 500

/-- What the fields of a node have to be. -/
def Patterns.validNode (patterns : Patterns) (node : GraphNode) : Bool :=
  patterns.opaqueId node.nodeId && patterns.shortText node.label &&
    node.path.all fun path => path.length ≤ 256 && patterns.isSafe path

def Patterns.validEdge (patterns : Patterns) (edge : GraphEdgeRow) : Bool :=
  patterns.opaqueId edge.edgeId && patterns.opaqueId edge.sourceNodeId &&
    patterns.opaqueId edge.targetNodeId

/-- The fields of a `GraphPage` and `_well_formed`. -/
def Patterns.validPage (patterns : Patterns) (page : GraphPage) : Bool :=
  page.nodes.length ≤ maxPageLimit && page.edges.length ≤ maxPageLimit * 2 &&
    page.frontier.length ≤ maxPageLimit &&
    (page.nodes.all patterns.validNode && page.edges.all patterns.validEdge &&
      page.frontier.all patterns.opaqueId) &&
    (decide page.nodeIds.Nodup && decide page.edgeIds.Nodup) &&
    (page.edges.all fun edge =>
      (edge.sourceNodeId ∈ page.nodeIds || edge.sourceNodeId ∈ page.frontier) &&
        (edge.targetNodeId ∈ page.nodeIds || edge.targetNodeId ∈ page.frontier)) &&
    (page.countNodes = page.nodes.length && page.countEdges = page.edges.length) &&
    !(page.nextCursor = none && page.truncated && page.frontier = [])

/-- `GraphPage(...)`. -/
def Patterns.validate (patterns : Patterns) (page : GraphPage) : Option GraphPage :=
  if patterns.validPage page then some page else none

section Model

variable (env : Env) (patterns : Patterns)

/-- `_metadata`; a `ValueError` is `none`. -/
def Env.metadata (row : GraphNodeRow) : Option (Option Path) :=
  match row.kind, row.uri with
  | .document, some uri =>
    (env.parseLocalUri uri).map fun relative =>
      if relative = [] || !patterns.isSafe relative then none else some relative
  | _, _ => some none

/-- `_node`; `_safe_uri` keeps what `build_local_uri` made. -/
def Env.node (row : GraphNodeRow) : Option GraphNode :=
  (env.metadata patterns row).map fun path =>
    { nodeId := row.nodeId
      kind := row.kind
      label := patterns.safeShortText row.label
      uri := row.uri
      extractor := row.extractor
      evidence := row.evidenceUri
      path := path }

/-- The edges with an end among the nodes. -/
def candidates (ids : List Text) (edges : List GraphEdgeRow) : List GraphEdgeRow :=
  edges.filter fun edge => edge.sourceNodeId ∈ ids || edge.targetNodeId ∈ ids

/-- The ends of these edges that are not among the nodes, in order. -/
def missing (ids : List Text) (edges : List GraphEdgeRow) : List Text :=
  dedupe id (((candidates ids edges).flatMap fun edge =>
    [edge.sourceNodeId, edge.targetNodeId]).filter fun endpoint => endpoint ∉ ids)

def frontier (ids : List Text) (edges : List GraphEdgeRow) : List Text :=
  (missing ids edges).take maxPageLimit

/-- The edges whose ends are all among the nodes or on the frontier. -/
def kept (ids : List Text) (edges : List GraphEdgeRow) : List GraphEdgeRow :=
  (candidates ids edges).filter fun edge =>
    (edge.sourceNodeId ∈ ids || edge.sourceNodeId ∈ frontier ids edges) &&
      (edge.targetNodeId ∈ ids || edge.targetNodeId ∈ frontier ids edges)

/-- What `_page` hands to the contract, for the rows of a page. -/
def assemble (pageRows : List GraphNodeRow) (pageNodes : List GraphNode)
    (edges : List GraphEdgeRow) (total offset : Nat) (truncated : Option Bool)
    (nextCursor : Option Nat) : GraphPage :=
  let ids := pageRows.map GraphNodeRow.nodeId
  let isTruncated := truncated.getD (offset + pageRows.length < total)
  { nodes := pageNodes
    edges := kept ids edges
    frontier := frontier ids edges
    nextCursor :=
      if nextCursor = none && isTruncated then some (offset + pageRows.length) else nextCursor
    truncated := isTruncated
    countNodes := pageRows.length
    countEdges := (kept ids edges).length
    totalNodes := total
    totalEdges := edges.length }

def Env.page (nodes : List GraphNodeRow) (edges : List GraphEdgeRow) (offset limit : Nat)
    (truncated : Option Bool) (nextCursor : Option Nat) : Option GraphPage :=
  let pageRows := (nodes.drop offset).take limit
  (pageRows.mapM (env.node patterns)).bind fun pageNodes =>
    patterns.validate (assemble pageRows pageNodes edges nodes.length offset truncated nextCursor)

/-- A node kind of a request; the graph of the code has others. -/
inductive RequestedKind where
  | knowledge (kind : NodeKind)
  | code (name : String)
deriving DecidableEq

inductive RequestedRelation where
  | knowledge (kind : RelationKind)
  | code (name : String)
deriving DecidableEq

inductive GraphDirection where
  | outward
  | inward
  | both

/-- The nodes that `node_kinds` lets through. -/
def GraphSnapshot.filtered (graph : GraphSnapshot) (nodeKinds : List RequestedKind) :
    List GraphNodeRow :=
  if nodeKinds = [] then graph.nodes
  else graph.nodes.filter fun node => .knowledge node.kind ∈ nodeKinds

def Env.graphPage (rows : List DocumentRow) (nodeKinds : List RequestedKind) (limit cursor : Nat) :
    Option GraphPage :=
  (env.graph rows).bind fun graph =>
    env.page patterns (graph.filtered nodeKinds) graph.edges cursor limit none none

/-- `_incident`. -/
def isIncident (edge : GraphEdgeRow) (nodeId : Text) : GraphDirection → Bool
  | .outward => edge.sourceNodeId = nodeId
  | .inward => edge.targetNodeId = nodeId
  | .both => edge.sourceNodeId = nodeId || edge.targetNodeId = nodeId

/-- The edges of `graph_expand`. -/
def GraphSnapshot.incident (graph : GraphSnapshot) (nodeId : Text) (direction : GraphDirection)
    (relations : List RequestedRelation) : List GraphEdgeRow :=
  graph.edges.filter fun edge =>
    isIncident edge nodeId direction &&
      (relations = [] || .knowledge edge.kind ∈ relations)

def GraphSnapshot.nodeIds (graph : GraphSnapshot) : List Text :=
  graph.nodes.map GraphNodeRow.nodeId

def otherEnd (nodeId : Text) (edge : GraphEdgeRow) : Text :=
  if edge.sourceNodeId = nodeId then edge.targetNodeId else edge.sourceNodeId

def GraphSnapshot.neighbours (graph : GraphSnapshot) (nodeId : Text)
    (direction : GraphDirection) (relations : List RequestedRelation) : List Text :=
  dedupe id (((graph.incident nodeId direction relations).map (otherEnd nodeId)).filter
    fun other => other ≠ nodeId && other ∈ graph.nodeIds)

/-- The neighbours of a page of `graph_expand`. -/
def expandWindow (neighbours : List Text) (limit offset : Nat) : List Text :=
  (neighbours.drop offset).take (limit - 1)

/-- The nodes of a page of `graph_expand`. -/
def GraphSnapshot.expandNodes (graph : GraphSnapshot) (nodeId : Text) (window : List Text) :
    List GraphNodeRow :=
  (dedupe id (nodeId :: window)).filterMap fun other =>
    graph.nodes.find? fun node => node.nodeId = other

/-- The answer of `graph_expand` over a graph. -/
def Env.expandPage (graph : GraphSnapshot) (nodeId : Text) (direction : GraphDirection)
    (relations : List RequestedRelation) (limit cursor : Nat) : Option GraphPage :=
  let neighbours := graph.neighbours nodeId direction relations
  let window := expandWindow neighbours limit cursor
  let truncated : Bool := cursor + window.length < neighbours.length
  let pageNodes := graph.expandNodes nodeId window
  env.page patterns pageNodes (graph.incident nodeId direction relations) 0 pageNodes.length
    (some truncated) (if truncated then some (cursor + window.length) else none)

/-- `graph_expand`, of a node of the graph. -/
def Env.graphExpand (rows : List DocumentRow) (nodeId : Text) (direction : GraphDirection)
    (relations : List RequestedRelation) (limit cursor : Nat) : Option GraphPage :=
  (env.graph rows).bind fun graph =>
    env.expandPage patterns graph nodeId direction relations limit cursor

end Model

end StudioOS.Knowledge
