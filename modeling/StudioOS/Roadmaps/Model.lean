import StudioOS.Roadmaps.Contract

/-!
# Model — the rows of a roadmap and its plan tree

The tables of `db/models/roadmap.py` and the shared part of
`services/roadmap_support.py`: errors, the write guard, the plan tree and
the neutral document built from it. Rows carry the columns some service
reads; provenance columns and timestamps are written and never read here,
and are left out.
-/

namespace StudioOS.Roadmaps

/-- A row id. Every new row takes the next one, as a `uuid4` is new. -/
abbrev RowId := Nat

structure PhaseRow where
  id : RowId
  key : String
  position : Nat
  title : String
  objective : Option String
  version : Int
deriving DecidableEq, Repr

structure StepRow where
  id : RowId
  phaseId : RowId
  key : String
  position : Nat
  title : String
  objective : Option String
  context : Option String
  instructions : Option String
  acceptanceCriteria : List String
  criteriaChecked : List Nat
  notes : Option String
  metadata : Metadata
  taskPlan : List TaskPlanItem
  stateOverride : Option StepStateOverride
  stateOverrideReason : Option String
  version : Int
deriving DecidableEq, Repr

structure DependencyRow where
  stepId : RowId
  dependsOnId : RowId
deriving DecidableEq, Repr

structure LinkRow where
  stepId : RowId
  taskId : RowId
  hydrationKey : Option String
deriving DecidableEq, Repr

structure RevisionRow where
  revisionNo : Int
  kind : RevisionKind
  status : Option RevisionStatus
  baseRevisionNo : Option Int
  summary : Option String
  content : RoadmapDocument
  reviewComment : Option String
deriving DecidableEq, Repr

/-- A roadmap row with the rows that belong to it. -/
structure Roadmap where
  id : RowId
  projectId : Uuid
  title : String
  objective : Option String
  context : Option String
  metadata : Metadata
  status : RoadmapStatus
  version : Int
  revisionNo : Int
  approvedRevisionNo : Option Int
  phases : List PhaseRow
  steps : List StepRow
  deps : List DependencyRow
  links : List LinkRow
  revisions : List RevisionRow
deriving DecidableEq

structure TaskRow where
  id : RowId
  projectId : Uuid
  title : String
  description : Option String
  status : TaskStatusValue

/-- The session of a request: the locked roadmap and the ids still free. -/
structure Session where
  roadmap : Roadmap
  nextId : RowId

def roadmapError (status : Nat) (code : String) (members : List (String × String)) : HttpError :=
  { status := status, detail := ("error_code", code) :: members }

def notFound : HttpError := roadmapError 404 "not_found" [("message", "roadmap")]

def referenceNotFound (what : String) : HttpError :=
  roadmapError 404 "reference_not_found" [("message", what)]

def invalidState (status : RoadmapStatus) (message : String)
    (transition : Option RoadmapTransition) : HttpError :=
  roadmapError 409 "invalid_state"
    ([("message", message), ("status", status.value)] ++
      transition.toList.map fun transition => ("transition", transition.value))

def invalidRoadmap (reason : RoadmapValidationReason) (field : String) : HttpError :=
  roadmapError 422 "invalid_roadmap" [("reason", reason.value), ("field", field)]

def stepHasLinks : HttpError := roadmapError 409 "step_has_links" []

def limitExceeded (limit : String) : HttpError :=
  roadmapError 422 "limit_exceeded" [("limit", limit)]

def duplicateKey (field : String) : HttpError :=
  roadmapError 409 "duplicate_key" [("field", field)]

def checkVersion (current expected : Int) : Except HttpError Unit :=
  if current ≠ expected then
    .error (roadmapError 409 "version_conflict" [("server_version", toString current)])
  else .ok ()

/-- The caller of a mutation: the principal, the provenance it declares and
the agent row its `agent_id` names. -/
structure Writer where
  principal : Authz.Principal
  provenance : WriteProvenance
  agent : Option Authz.Agent

/-- `resolve_provenance`: a declared agent belongs to the caller's machine. -/
def resolveProvenance (writer : Writer) : Except HttpError Unit :=
  if writer.provenance.agentId.isSome && !Authz.ownsAgent writer.agent writer.principal.machine then
    .error (roadmapError 409 "actor_not_owned"
      [("message", "agent_id must be an agent attached to the authenticated machine")])
  else .ok ()

def guardWrite (writer : Writer) (roadmap : Roadmap) (kind : WriteKind) : Except HttpError Unit := do
  Authz.ensureProjectAccess writer.principal roadmap.projectId "write"
  Authz.ensureCanWrite writer.principal "roadmap"
  if !writeAllowed roadmap.status kind then
    .error (invalidState roadmap.status
      s!"a {roadmap.status.value} roadmap does not accept {kind.value}" none)
  else if kind = .content ∧ roadmap.status = .active ∧
      isAgentWrite (writer.principal.role = .agent) writer.provenance then
    .error (invalidState roadmap.status
      (s!"content changes by an agent on an active roadmap require a proposal: " ++
        s!"POST /api/v1/roadmaps/{roadmap.id}/proposals") none)
  else .ok ()

def Roadmap.stepIds (roadmap : Roadmap) : List RowId := roadmap.steps.map (·.id)

/-- `ORDER BY position, key`. -/
def phaseLe (a b : PhaseRow) : Bool :=
  a.position < b.position || (a.position = b.position && a.key ≤ b.key)

def Roadmap.phasesInOrder (roadmap : Roadmap) : List PhaseRow := 
  roadmap.phases.insertionSort (phaseLe · ·)

/-- The index of a phase in the order of the phases. -/
def Roadmap.phaseOrder (roadmap : Roadmap) (phaseId : RowId) : Nat :=
  roadmap.phasesInOrder.findIdx (·.id = phaseId)

/-- `ORDER BY position, key`, then a stable sort by the order of the phases. -/
def Roadmap.stepLe (roadmap : Roadmap) (a b : StepRow) : Bool :=
  roadmap.phaseOrder a.phaseId < roadmap.phaseOrder b.phaseId ||
    (roadmap.phaseOrder a.phaseId = roadmap.phaseOrder b.phaseId &&
      (a.position < b.position || (a.position = b.position && a.key ≤ b.key)))

def Roadmap.stepsInOrder (roadmap : Roadmap) : List StepRow :=
  roadmap.steps.insertionSort (roadmap.stepLe · ·)

def Roadmap.stepsOf (roadmap : Roadmap) (phaseId : RowId) : List StepRow :=
  roadmap.stepsInOrder.filter (·.phaseId = phaseId)

def Roadmap.stepByKey (roadmap : Roadmap) (key : String) : Option StepRow :=
  roadmap.stepsInOrder.find? (·.key = key)

def Roadmap.phaseByKey (roadmap : Roadmap) (key : String) : Option PhaseRow :=
  roadmap.phasesInOrder.find? (·.key = key)

def Roadmap.keyOf (roadmap : Roadmap) (stepId : RowId) : String :=
  ((roadmap.stepsInOrder.find? (·.id = stepId)).map (·.key)).getD ""

/-- The ids a step depends on. -/
def Roadmap.targetsOf (roadmap : Roadmap) (stepId : RowId) : List RowId :=
  (roadmap.deps.filter (·.stepId = stepId)).map (·.dependsOnId)

/-- `depends_on_keys`: in the order of the steps. -/
def Roadmap.dependsOnKeys (roadmap : Roadmap) (step : StepRow) : List String :=
  let order := fun stepId => roadmap.stepsInOrder.findIdx (·.id = stepId)
  ((roadmap.targetsOf step.id).insertionSort fun a b => order a ≤ order b).map roadmap.keyOf

def Roadmap.edges (roadmap : Roadmap) : List (String × List String) :=
  roadmap.stepsInOrder.map fun step => (step.key, roadmap.dependsOnKeys step)

def Roadmap.linksOf (roadmap : Roadmap) (stepId : RowId) : List LinkRow :=
  roadmap.links.filter (·.stepId = stepId)

def textOrNone : Option String → Option String
  | some "" => none
  | text => text

def buildStep (roadmap : Roadmap) (step : StepRow) : StepContent :=
  { key := step.key
    title := step.title
    objective := step.objective
    context := step.context
    instructions := step.instructions
    acceptanceCriteria := step.acceptanceCriteria
    notes := step.notes
    metadata := step.metadata
    dependsOn := roadmap.dependsOnKeys step
    tasks := step.taskPlan }

/-- `build_document`: the neutral plan of the current state. -/
def buildDocument (roadmap : Roadmap) : RoadmapDocument :=
  { title := roadmap.title
    objective := roadmap.objective
    context := roadmap.context
    metadata := roadmap.metadata
    phases := roadmap.phasesInOrder.map fun phase =>
      { key := phase.key
        title := phase.title
        objective := phase.objective
        steps := (roadmap.stepsOf phase.id).map (buildStep roadmap) }
    exportedAt := none
    revisionNo := none }

/-- `next_revision_no`: behind every number in use. -/
def nextRevisionNo (roadmap : Roadmap) : Int :=
  max ((roadmap.revisions.map (·.revisionNo)).foldl max 0) roadmap.revisionNo + 1

def recordSnapshot (roadmap : Roadmap) : Roadmap :=
  let revisionNo := nextRevisionNo roadmap
  { roadmap with
    revisionNo := revisionNo
    approvedRevisionNo := some revisionNo
    revisions := roadmap.revisions ++
      [{ revisionNo := revisionNo, kind := .snapshot, status := none, baseRevisionNo := none,
         summary := none, content := buildDocument roadmap, reviewComment := none }] }

/-- `content_changed`: a version, and a snapshot of an active roadmap. -/
def contentChanged (roadmap : Roadmap) : Roadmap :=
  let roadmap := { roadmap with version := roadmap.version + 1 }
  if roadmap.status = .active then recordSnapshot roadmap else roadmap

end StudioOS.Roadmaps
