import StudioOS.Roadmaps.Structure

/-!
# Lifecycle — headers, transitions, proposals and reviews

`services/roadmaps.py`. `otherActive` is what `_ensure_no_other_active` and
the partial unique index see: another roadmap of the project is active.
-/

namespace StudioOS.Roadmaps

structure RoadmapCreate where
  projectId : Uuid
  title : String
  objective : Option String
  context : Option String
  metadata : Metadata

def authorizeRoadmapCreate (writer : Writer) (projectId : Uuid) : Except HttpError Unit := do
  Authz.ensureProjectAccess writer.principal projectId "write"
  Authz.ensureCanWrite writer.principal "roadmap"

/-- `_new_roadmap`, with the defaults of its columns. -/
def newRoadmap (id : RowId) (projectId : Uuid) (title : String) (objective context : Option String)
    (metadata : Metadata) : Roadmap :=
  { id := id
    projectId := projectId
    title := title
    objective := textOrNone objective
    context := textOrNone context
    metadata := metadata
    status := .draft
    version := 1
    revisionNo := 0
    approvedRevisionNo := none
    phases := []
    steps := []
    deps := []
    links := []
    revisions := [] }

def requireProject (projects : List Uuid) (projectId : Uuid) : Except HttpError Unit :=
  if projectId ∈ projects then .ok () else .error (referenceNotFound "project")

def createRoadmap (nextId : RowId) (projects : List Uuid) (writer : Writer)
    (payload : RoadmapCreate) : Except HttpError Session := do
  authorizeRoadmapCreate writer payload.projectId
  resolveProvenance writer
  requireProject projects payload.projectId
  .ok
    { roadmap := newRoadmap nextId payload.projectId payload.title payload.objective
        payload.context payload.metadata
      nextId := nextId + 1 }

def validated (document : RoadmapDocument) : Except HttpError Unit :=
  match roadmapDocumentErrors document with
  | [] => .ok ()
  | error :: _ => .error (invalidRoadmap error.reason error.field)

/-- `_submit`: the content is frozen as a pending proposal. -/
def submit (roadmap : Roadmap) : Roadmap :=
  let revisionNo := nextRevisionNo roadmap
  { roadmap with
    revisionNo := revisionNo
    revisions := roadmap.revisions ++
      [{ revisionNo := revisionNo, kind := .proposal, status := some .pending
         baseRevisionNo := roadmap.approvedRevisionNo, summary := none
         content := buildDocument roadmap, reviewComment := none }]
    status := .proposed }

structure RoadmapImport where
  projectId : Uuid
  document : RoadmapDocument
  submit : Bool

def imported (nextId : RowId) (payload : RoadmapImport) : Session :=
  let document := payload.document
  insertDocument
    ⟨newRoadmap nextId payload.projectId document.title document.objective document.context
      document.metadata, nextId + 1⟩ document

def importRoadmap (nextId : RowId) (projects : List Uuid) (writer : Writer)
    (payload : RoadmapImport) : Except HttpError Session := do
  authorizeRoadmapCreate writer payload.projectId
  resolveProvenance writer
  validated payload.document
  requireProject projects payload.projectId
  let session := imported nextId payload
  .ok (if payload.submit then { session with roadmap := submit session.roadmap } else session)

structure RoadmapUpdate where
  title : Option String
  objective : Option String
  context : Option String
  metadata : Option Metadata

def updateRoadmap (session : Session) (writer : Writer) (payload : RoadmapUpdate)
    (expectedVersion : Int) : Except HttpError Session := do
  let roadmap := session.roadmap
  guardWrite writer roadmap .content
  resolveProvenance writer
  checkVersion roadmap.version expectedVersion
  .ok (commitContent
    { roadmap with
      title := patched payload.title roadmap.title
      objective := patchedText payload.objective roadmap.objective
      context := patchedText payload.context roadmap.context
      metadata := patched payload.metadata roadmap.metadata }
    session.nextId)

def RevisionRow.isPendingProposal (row : RevisionRow) : Bool :=
  row.kind = .proposal && row.status = some .pending

/-- The row with the higher number. -/
def highest (best : Option RevisionRow) (row : RevisionRow) : Option RevisionRow :=
  match best with
  | none => some row
  | some other => if other.revisionNo < row.revisionNo then some row else some other

/-- `_pending_proposal`: the pending proposal with the highest number. -/
def pendingProposal (roadmap : Roadmap) : Option RevisionRow :=
  (roadmap.revisions.filter (·.isPendingProposal)).foldl highest none

/-- The review fields of one proposal row. -/
def reviewRevision (revisionNo : Int) (status : RevisionStatus) (comment : Option String)
    (revisions : List RevisionRow) : List RevisionRow :=
  revisions.map fun row =>
    if row.kind = .proposal ∧ row.revisionNo = revisionNo then
      { row with status := some status, reviewComment := comment }
    else row

def activeRoadmapExists : HttpError :=
  roadmapError 409 "active_roadmap_exists"
    [("message", "the project already has an active roadmap")]

structure TransitionRequest where
  transition : RoadmapTransition
  expectedVersion : Int
  comment : Option String

/-- The status a review transition gives to the proposal. -/
def reviewStatus : RoadmapTransition → RevisionStatus
  | .approve => .approved
  | .requestChanges => .changesRequested
  | _ => .rejected

/-- A transition other than `submit`, to its target. -/
def applyTransition (roadmap : Roadmap) (target : RoadmapStatus) (payload : TransitionRequest) :
    Roadmap :=
  let proposal := if roadmap.status = .proposed then pendingProposal roadmap else none
  let moved := { roadmap with status := target }
  match proposal with
  | some proposal =>
    { moved with
      revisions := reviewRevision proposal.revisionNo (reviewStatus payload.transition)
        payload.comment moved.revisions
      approvedRevisionNo :=
        if payload.transition = .approve then some proposal.revisionNo
        else moved.approvedRevisionNo }
  | none =>
    if payload.transition = .activate ∨ payload.transition = .approve then recordSnapshot moved
    else moved

def transitioned (roadmap : Roadmap) (target : RoadmapStatus) (payload : TransitionRequest) :
    Roadmap :=
  let roadmap := { roadmap with version := roadmap.version + 1 }
  if payload.transition = .submit then submit roadmap else applyTransition roadmap target payload

def ensureTransition (writer : Writer) (status : RoadmapStatus) (transition : RoadmapTransition) :
    Except HttpError Unit :=
  if transitionRequiresProvision status transition then
    Authz.ensureCanProvision writer.principal "roadmap"
  else .ok ()

def transitionRoadmap (otherActive : Bool) (session : Session) (writer : Writer)
    (payload : TransitionRequest) : Except HttpError Session := do
  let roadmap := session.roadmap
  Authz.ensureProjectAccess writer.principal roadmap.projectId "write"
  Authz.ensureCanWrite writer.principal "roadmap"
  ensureTransition writer roadmap.status payload.transition
  resolveProvenance writer
  if roadmap.status = .active ∧ payload.transition = .activate then .ok session
  else
    checkVersion roadmap.version payload.expectedVersion
    match transitionTarget roadmap.status payload.transition with
    | none =>
      .error (invalidState roadmap.status
        s!"transition {payload.transition.value} is not allowed" (some payload.transition))
    | some target =>
      if target = .active ∧ otherActive then .error activeRoadmapExists
      else .ok { session with roadmap := transitioned roadmap target payload }

structure ProposalCreate where
  baseRevisionNo : Int
  document : RoadmapDocument
  submit : Bool
  summary : Option String

/-- The header of a document, as `_revise_draft` writes it. -/
def withHeader (roadmap : Roadmap) (document : RoadmapDocument) : Roadmap :=
  { roadmap with
    title := document.title
    objective := textOrNone document.objective
    context := textOrNone document.context
    metadata := document.metadata }

/-- `revision.summary = payload.summary` on the proposal just submitted. -/
def summarize (revisionNo : Int) (summary : Option String) (revisions : List RevisionRow) :
    List RevisionRow :=
  revisions.map fun row =>
    if row.kind = .proposal ∧ row.revisionNo = revisionNo then { row with summary := summary }
    else row

/-- The pending proposal of a roadmap, with a summary. -/
def withSummary (summary : Option String) (roadmap : Roadmap) : Roadmap :=
  match pendingProposal roadmap with
  | some revision =>
    { roadmap with revisions := summarize revision.revisionNo summary roadmap.revisions }
  | none => roadmap

/-- A draft whose plan is the document, with its header and its revision. -/
def draftRevised (payload : ProposalCreate) (roadmap : Roadmap) : Roadmap :=
  let roadmap := { withHeader roadmap payload.document with version := roadmap.version + 1 }
  if payload.submit then withSummary payload.summary (submit roadmap)
  else
    let revisionNo := nextRevisionNo roadmap
    { roadmap with
      revisionNo := revisionNo
      revisions := roadmap.revisions ++
        [{ revisionNo := revisionNo, kind := .snapshot, status := none
           baseRevisionNo := some payload.baseRevisionNo, summary := payload.summary
           content := payload.document, reviewComment := none }] }

def reviseDraft (session : Session) (writer : Writer) (payload : ProposalCreate) :
    Except HttpError Session := do
  let roadmap := session.roadmap
  guardWrite writer roadmap .content
  if payload.baseRevisionNo ≠ roadmap.revisionNo then
    .error (roadmapError 409 "version_conflict"
      [("server_revision_no", toString roadmap.revisionNo)])
  else
    validated payload.document
    resolveProvenance writer
    let session ← reconcileDocument session payload.document
    .ok { session with roadmap := draftRevised payload session.roadmap }

/-- Every pending proposal gives way to a new one. -/
def supersedePending (revisions : List RevisionRow) : List RevisionRow :=
  revisions.map fun row =>
    if row.isPendingProposal then { row with status := some .superseded } else row

def createProposal (session : Session) (writer : Writer) (payload : ProposalCreate) :
    Except HttpError Session := do
  let roadmap := session.roadmap
  if roadmap.status = .proposed then
    Authz.ensureProjectAccess writer.principal roadmap.projectId "write"
    Authz.ensureCanWrite writer.principal "roadmap"
    .error (invalidState .proposed
      ("request_changes by an authorized reviewer is required before revising " ++
        "a proposed roadmap; then revise the draft with its current revision_no") none)
  else if roadmap.status = .draft then reviseDraft session writer payload
  else
    guardWrite writer roadmap .proposal
    resolveProvenance writer
    validated payload.document
    let revisionNo := nextRevisionNo roadmap
    let revision : RevisionRow :=
      { revisionNo := revisionNo, kind := .proposal, status := some .pending
        baseRevisionNo := some payload.baseRevisionNo, summary := payload.summary
        content := payload.document, reviewComment := none }
    .ok { session with roadmap :=
      { roadmap with revisions := supersedePending roadmap.revisions ++ [revision] } }

structure ProposalReview where
  decision : ReviewDecision
  expectedVersion : Int
  comment : Option String

def proposalRow (roadmap : Roadmap) (revisionNo : Int) : Option RevisionRow :=
  roadmap.revisions.find? fun row => row.revisionNo = revisionNo && row.kind = .proposal

/-- The approval of a proposal: its document replaces the plan. -/
def approveProposal (session : Session) (revision : RevisionRow) : Except HttpError Session := do
  let roadmap := session.roadmap
  if revision.baseRevisionNo ≠ roadmap.approvedRevisionNo then
    .error (roadmapError 409 "base_revision_stale"
      (roadmap.approvedRevisionNo.toList.map fun number =>
        ("server_revision_no", toString number)))
  else
    let session ← reconcileDocument session revision.content
    .ok { session with roadmap :=
      { session.roadmap with
        version := session.roadmap.version + 1
        revisionNo := revision.revisionNo
        approvedRevisionNo := some revision.revisionNo } }

/-- The other decisions only record the review. -/
def applyDecision (session : Session) (revision : RevisionRow) :
    ReviewDecision → Except HttpError Session
  | .approve => approveProposal session revision
  | .requestChanges | .reject => .ok session

def decisionStatus : ReviewDecision → RevisionStatus
  | .approve => .approved
  | .requestChanges => .changesRequested
  | .reject => .rejected

def reviewProposal (session : Session) (writer : Writer) (revisionNo : Int)
    (payload : ProposalReview) : Except HttpError Session := do
  let roadmap := session.roadmap
  Authz.ensureProjectAccess writer.principal roadmap.projectId "write"
  Authz.ensureCanWrite writer.principal "roadmap"
  Authz.ensureCanProvision writer.principal "roadmap"
  match proposalRow roadmap revisionNo with
  | none => .error (referenceNotFound "revision")
  | some revision =>
    if roadmap.status ≠ .active then
      .error (invalidState roadmap.status
        "a proposal can only be reviewed while the roadmap is active" none)
    else if revision.status ≠ some .pending then
      .error (invalidState roadmap.status
        (s!"proposal {revisionNo} is " ++
          ((revision.status.map (·.value)).getD "" ++ ", not pending")) none)
    else
      checkVersion roadmap.version payload.expectedVersion
      let reviewed ← applyDecision session revision payload.decision
      .ok { reviewed with roadmap :=
        { reviewed.roadmap with
          revisions := reviewRevision revisionNo (decisionStatus payload.decision) payload.comment
            reviewed.roadmap.revisions } }

end StudioOS.Roadmaps
