import StudioOS.Roadmaps.Model

/-!
# Reconcile — writing a document into the tables

`insert_document` fills an empty roadmap, `reconcile_document` turns the
plan of a roadmap into that of a document, matching phases and steps by
key.
-/

namespace StudioOS.Roadmaps

def newPhaseRow (id : RowId) (position : Nat) (phaseIn : PhaseContent) : PhaseRow :=
  { id := id
    key := phaseIn.key
    position := position
    title := phaseIn.title
    objective := textOrNone phaseIn.objective
    version := 1 }

def newStepRow (id phaseId : RowId) (position : Nat) (stepIn : StepContent) : StepRow :=
  { id := id
    phaseId := phaseId
    key := stepIn.key
    position := position
    title := stepIn.title
    objective := textOrNone stepIn.objective
    context := textOrNone stepIn.context
    instructions := textOrNone stepIn.instructions
    acceptanceCriteria := stepIn.acceptanceCriteria
    criteriaChecked := []
    notes := textOrNone stepIn.notes
    metadata := stepIn.metadata
    taskPlan := stepIn.tasks
    stateOverride := none
    stateOverrideReason := none
    version := 1 }

/-- The rows a document's dependencies make, its steps found by key. -/
def documentDeps (steps : List StepRow) (document : RoadmapDocument) : List DependencyRow :=
  let idOf := fun key => (steps.find? (·.key = key)).map (·.id)
  document.steps.flatMap fun stepIn =>
    stepIn.dependsOn.filterMap fun dependency =>
      (idOf stepIn.key).bind fun stepId =>
        (idOf dependency).map fun dependsOnId => ⟨stepId, dependsOnId⟩

def insertPhase (session : Session) (phaseIn : PhaseContent) (position : Nat) : Session :=
  { roadmap := { session.roadmap with
      phases := session.roadmap.phases ++ [newPhaseRow session.nextId position phaseIn] }
    nextId := session.nextId + 1 }

def insertStep (phaseId : RowId) (session : Session) (stepIn : StepContent) (position : Nat) :
    Session :=
  { roadmap := { session.roadmap with
      steps := session.roadmap.steps ++ [newStepRow session.nextId phaseId position stepIn] }
    nextId := session.nextId + 1 }

def insertPhaseSteps (session : Session) (phaseIn : PhaseContent) (position : Nat) : Session :=
  phaseIn.steps.zipIdx.foldl
    (fun inner stepIn => insertStep session.nextId inner stepIn.1 stepIn.2)
    (insertPhase session phaseIn position)

def insertDocument (session : Session) (document : RoadmapDocument) : Session :=
  let session := document.phases.zipIdx.foldl
    (fun session phaseIn => insertPhaseSteps session phaseIn.1 phaseIn.2) session
  { session with roadmap := { session.roadmap with
      deps := session.roadmap.deps ++ documentDeps session.roadmap.steps document } }

/-- The dependencies and links of the steps that are left. -/
def Roadmap.keepSteps (roadmap : Roadmap) (keep : StepRow → Bool) : Roadmap :=
  let steps := roadmap.steps.filter keep
  let ids := steps.map (·.id)
  { roadmap with
    steps := steps
    deps := roadmap.deps.filter fun dep => dep.stepId ∈ ids && dep.dependsOnId ∈ ids
    links := roadmap.links.filter fun link => link.stepId ∈ ids }

def Roadmap.keepPhases (roadmap : Roadmap) (keep : PhaseRow → Bool) : Roadmap :=
  let phases := roadmap.phases.filter keep
  let ids := phases.map (·.id)
  { roadmap with phases := phases }.keepSteps fun step => step.phaseId ∈ ids

/-- A phase that is kept, as the document has it. -/
def PhaseRow.rewritten (row : PhaseRow) (position : Nat) (phaseIn : PhaseContent) : PhaseRow :=
  { row with
    position := position
    title := phaseIn.title
    objective := textOrNone phaseIn.objective
    version := row.version + 1 }

/-- A step that is kept, as the document has it; changed criteria are
unchecked. -/
def StepRow.rewritten (row : StepRow) (phaseId : RowId) (position : Nat) (stepIn : StepContent) :
    StepRow :=
  { row with
    criteriaChecked :=
      if stepIn.acceptanceCriteria ≠ row.acceptanceCriteria then [] else row.criteriaChecked
    phaseId := phaseId
    position := position
    title := stepIn.title
    objective := textOrNone stepIn.objective
    context := textOrNone stepIn.context
    instructions := textOrNone stepIn.instructions
    acceptanceCriteria := stepIn.acceptanceCriteria
    notes := textOrNone stepIn.notes
    metadata := stepIn.metadata
    taskPlan := stepIn.tasks
    version := row.version + 1 }

def reconcilePhase (session : Session) (phaseIn : PhaseContent) (position : Nat) : Session :=
  { roadmap := { session.roadmap with
      phases := Keyed.upsert (·.key) phaseIn.key (·.rewritten position phaseIn)
        (newPhaseRow session.nextId position phaseIn) session.roadmap.phases }
    nextId := session.nextId + 1 }

def reconcileStep (phaseId : RowId) (session : Session) (stepIn : StepContent) (position : Nat) :
    Session :=
  { roadmap := { session.roadmap with
      steps := Keyed.upsert (·.key) stepIn.key (·.rewritten phaseId position stepIn)
        (newStepRow session.nextId phaseId position stepIn) session.roadmap.steps }
    nextId := session.nextId + 1 }

/-- The steps of a document's phase, under the row with the phase's key. -/
def reconcileSteps (session : Session) (phaseIn : PhaseContent) : Session :=
  match session.roadmap.phases.find? (·.key = phaseIn.key) with
  | none => session
  | some phase =>
    phaseIn.steps.zipIdx.foldl
      (fun session stepIn => reconcileStep phase.id session stepIn.1 stepIn.2) session

/-- What is left when the rows that are not of the document are deleted,
with the dependencies of the document. -/
def Roadmap.keepDocument (roadmap : Roadmap) (document : RoadmapDocument) : Roadmap :=
  let roadmap := roadmap.keepSteps fun step => step.key ∈ document.steps.map (·.key)
  let roadmap := roadmap.keepPhases fun phase => phase.key ∈ document.phases.map (·.key)
  { roadmap with deps := documentDeps roadmap.steps document }

/-- `reconcile_document`; the document was validated by the caller. -/
def reconcileDocument (session : Session) (document : RoadmapDocument) : Except HttpError Session :=
  if session.roadmap.steps.any fun step =>
      step.key ∉ document.steps.map (·.key) && !(session.roadmap.linksOf step.id).isEmpty then
    .error stepHasLinks
  else
    let session := document.phases.zipIdx.foldl
      (fun session phaseIn => reconcilePhase session phaseIn.1 phaseIn.2) session
    let session := document.phases.foldl reconcileSteps session
    .ok { session with roadmap := session.roadmap.keepDocument document }

end StudioOS.Roadmaps
