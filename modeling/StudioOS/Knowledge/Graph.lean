import StudioOS.Knowledge.Rows
import StudioOS.Library.Keyed

/-!
# Knowledge — Graph

`graph()`: a node for each document, heading and tag, an edge for each
heading, resolved link and tag of a document.
-/

namespace StudioOS.Knowledge

open Deduped

inductive RelationKind where
  | linksTo
  | taggedWith
  | embeds
  | contains
deriving DecidableEq

def RelationKind.value : RelationKind → Text
  | .linksTo => "links_to".toList
  | .taggedWith => "tagged_with".toList
  | .embeds => "embeds".toList
  | .contains => "contains".toList

structure GraphNodeRow where
  nodeId : Text
  kind : NodeKind
  label : Text
  uri : Option Text
  extractor : String
  evidenceUri : Text

structure GraphEdgeRow where
  edgeId : Text
  kind : RelationKind
  sourceNodeId : Text
  targetNodeId : Text
  extractor : String
  evidenceUri : Text

structure GraphSnapshot where
  nodes : List GraphNodeRow
  edges : List GraphEdgeRow

section Model

variable (env : Env)

def Env.edgeId (kind : RelationKind) (source target : Text) : Text :=
  "edge:".toList ++ env.digest (kind.value ++ '|' :: source ++ '|' :: target)

/-- The documents, `ORDER BY uri`. -/
def Env.byUri (rows : List DocumentRow) : List DocumentRow :=
  rows.insertionSort fun a b => env.uri a.relativePath ≤ env.uri b.relativePath

/-- The headings of a document, `ORDER BY line`. -/
def DocumentRow.byLine (row : DocumentRow) : List Heading :=
  row.headings.insertionSort fun a b => a.line ≤ b.line

def Env.documentNode (row : DocumentRow) : GraphNodeRow where
  nodeId := env.docNodeId row.relativePath
  kind := .document
  label := row.title
  uri := some (env.uri row.relativePath)
  extractor := "markdown_documents"
  evidenceUri := env.uri row.relativePath

/-- The node of a heading; a `ValueError` is `none`. -/
def Env.headingNode (row : DocumentRow) (heading : Heading) : Option GraphNodeRow :=
  (env.buildLocalUri row.relativePath (some heading.line)).map fun uri =>
    { nodeId := env.headingNodeId row.relativePath heading.line
      kind := .heading
      label := heading.text
      uri := some uri
      extractor := "markdown_headings"
      evidenceUri := env.uri row.relativePath }

/-- The tags with the URIs of their documents, `GROUP BY slug, tag ORDER BY slug`:
behind the order of the documents the first of a group is its `MIN`. -/
def Env.tagGroups (rows : List DocumentRow) : List (TagRow × Text) :=
  (firsts Prod.fst ((env.byUri rows).flatMap fun row =>
    row.tags.map fun tag => (tag, env.uri row.relativePath))).insertionSort fun a b =>
      a.1.slug < b.1.slug ∨ (a.1.slug = b.1.slug ∧ a.1.tag ≤ b.1.tag)

def tagNode (group : TagRow × Text) : GraphNodeRow where
  nodeId := tagNodeId group.1.slug
  kind := .tag
  label := group.1.tag
  uri := none
  extractor := "markdown_tags"
  evidenceUri := group.2

def Env.graphNodes (rows : List DocumentRow) : Option (List GraphNodeRow) :=
  let sorted := env.byUri rows
  let headings := sorted.flatMap fun row => row.byLine.map (env.headingNode row)
  (headings.mapM id).map fun headings =>
    sorted.map env.documentNode ++ (headings ++ (env.tagGroups rows).map tagNode)

def Env.headingEdge (row : DocumentRow) (heading : Heading) : GraphEdgeRow :=
  let source := env.docNodeId row.relativePath
  let target := env.headingNodeId row.relativePath heading.line
  { edgeId := env.edgeId .contains source target
    kind := .contains
    sourceNodeId := source
    targetNodeId := target
    extractor := "markdown_headings"
    evidenceUri := env.uri row.relativePath }

/-- The edge of a link that leads somewhere. -/
def Env.linkEdge (row : DocumentRow) (link : LinkRow) : Option GraphEdgeRow :=
  link.resolved.map fun resolved =>
    let relation := if link.embed then .embeds else .linksTo
    let source := env.docNodeId row.relativePath
    { edgeId := env.edgeId relation source resolved.nodeId
      kind := relation
      sourceNodeId := source
      targetNodeId := resolved.nodeId
      extractor :=
        if link.embed then "markdown_embeds"
        else if link.kind = .wikilink then "markdown_wikilinks"
        else "markdown_links"
      evidenceUri := resolved.uri }

def Env.tagEdge (row : DocumentRow) (tag : TagRow) : GraphEdgeRow :=
  let source := env.docNodeId row.relativePath
  let target := tagNodeId tag.slug
  { edgeId := env.edgeId .taggedWith source target
    kind := .taggedWith
    sourceNodeId := source
    targetNodeId := target
    extractor := "markdown_tags"
    evidenceUri := env.uri row.relativePath }

def Env.graphEdges (rows : List DocumentRow) : List GraphEdgeRow :=
  let sorted := env.byUri rows
  (sorted.flatMap fun row => row.byLine.map (env.headingEdge row)) ++
    ((sorted.flatMap fun row => row.links.filterMap (env.linkEdge row)) ++
      sorted.flatMap fun row => row.tags.map (env.tagEdge row))

/-- `graph`; a `ValueError` is `none`. -/
def Env.graph (rows : List DocumentRow) : Option GraphSnapshot :=
  (env.graphNodes rows).map fun nodes =>
    { nodes := dedupe GraphNodeRow.nodeId nodes
      edges := dedupe GraphEdgeRow.edgeId (env.graphEdges rows) }

end Model

variable {env : Env} {rows rows' : List DocumentRow}

theorem byUri_perm (h : rows.Perm rows') (hkey : (rows.map DocumentRow.relativePath).Nodup) :
    env.byUri rows = env.byUri rows' := by
  have hle : ∀ rs : List DocumentRow, (env.byUri rs).Pairwise
      fun a b => env.uri a.relativePath ≤ env.uri b.relativePath := by
    intro rs
    have htotal : Std.Total fun a b : DocumentRow =>
        env.uri a.relativePath ≤ env.uri b.relativePath := ⟨fun a b => le_total _ _⟩
    have htrans : IsTrans DocumentRow fun a b =>
        env.uri a.relativePath ≤ env.uri b.relativePath := ⟨fun a b c => le_trans⟩
    exact List.pairwise_insertionSort _ rs
  have hperm : (env.byUri rows).Perm (env.byUri rows') :=
    ((List.perm_insertionSort _ _).trans h).trans (List.perm_insertionSort _ _).symm
  refine List.Perm.eq_of_pairwise ?_ (hle rows) (hle rows') hperm
  intro a b ha hb hab hba
  have ha' : a ∈ rows := (List.mem_insertionSort _).mp ha
  have hb' : b ∈ rows := h.mem_iff.mpr ((List.mem_insertionSort _).mp hb)
  exact List.inj_on_of_nodup_map hkey ha' hb' (env.uri_injective (le_antisymm hab hba))

theorem graph_perm (h : rows.Perm rows') (hkey : (rows.map DocumentRow.relativePath).Nodup) :
    env.graph rows = env.graph rows' := by
  simp [Env.graph, Env.graphNodes, Env.graphEdges, Env.tagGroups, byUri_perm h hkey]

end StudioOS.Knowledge
