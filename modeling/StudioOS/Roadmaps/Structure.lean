import StudioOS.Roadmaps.Reconcile

/-!
# Structure — edits of phases, steps, dependencies and links

`services/roadmap_structure.py`. Every operation locks its roadmap row, so
it reads and writes the plan alone; what it returns is the session as its
commit leaves it.
-/

namespace StudioOS.Roadmaps

/-- `_open`. -/
def openRoadmap (writer : Writer) (roadmap : Roadmap) (kind : WriteKind)
    (expectedVersion : Option Int) : Except HttpError Unit := do
  guardWrite writer roadmap kind
  resolveProvenance writer
  match expectedVersion with
  | some expected => checkVersion roadmap.version expected
  | none => .ok ()

def findPhase (roadmap : Roadmap) (key : String) : Except HttpError PhaseRow :=
  match roadmap.phaseByKey key with
  | some phase => .ok phase
  | none => .error (referenceNotFound s!"phase {key}")

def findStep (roadmap : Roadmap) (key : String) : Except HttpError StepRow :=
  match roadmap.stepByKey key with
  | some step => .ok step
  | none => .error (referenceNotFound s!"step {key}")

def checkPlan (roadmap : Roadmap) (stepKey : String) (items : List TaskPlanItem) :
    Except HttpError Unit :=
  if ¬ (items.map (·.hydrationKey)).Nodup then
    .error (invalidRoadmap .duplicateHydrationKey s!"steps.{stepKey}.tasks")
  else
    let others := ((roadmap.steps.filter (·.key ≠ stepKey)).map (·.taskPlan.length)).sum
    if others + items.length > maxTaskPlan then .error (limitExceeded "task_plan") else .ok ()

/-- `_check_plan` of the plan a payload gives, if it gives one. -/
def checkTasks (roadmap : Roadmap) (stepKey : String) :
    Option (List TaskPlanItem) → Except HttpError Unit
  | some items => checkPlan roadmap stepKey items
  | none => .ok ()

def requireDraft (roadmap : Roadmap) : Except HttpError Unit :=
  if roadmap.status ≠ .draft then
    .error (invalidState roadmap.status
      ("phases and steps can only be deleted from a draft roadmap; mark a step " ++
        "\x60skipped\x60 instead") none)
  else .ok ()

/-- The position of a row in `_reposition`, unchanged when it is not in the
list. -/
def newPosition (ids : List RowId) (id : RowId) (position : Nat) : Nat :=
  if id ∈ ids then ids.idxOf id else position

/-- `_reposition` of phases. -/
def repositionPhases (ids : List RowId) (phases : List PhaseRow) : List PhaseRow :=
  phases.map fun phase => { phase with position := newPosition ids phase.id phase.position }

/-- `_reposition` of steps. -/
def repositionSteps (ids : List RowId) (steps : List StepRow) : List StepRow :=
  steps.map fun step => { step with position := newPosition ids step.id step.position }

def updatePhaseRow (id : RowId) (update : PhaseRow → PhaseRow) (phases : List PhaseRow) :
    List PhaseRow :=
  phases.map fun phase => if phase.id = id then update phase else phase

def updateStepRow (id : RowId) (update : StepRow → StepRow) (steps : List StepRow) : List StepRow :=
  steps.map fun step => if step.id = id then update step else step

def commitContent (roadmap : Roadmap) (nextId : RowId) : Session :=
  { roadmap := contentChanged roadmap, nextId := nextId }

structure PhaseCreate where
  key : String
  title : String
  objective : Option String
  expectedRoadmapVersion : Int

def createPhase (session : Session) (writer : Writer) (payload : PhaseCreate) :
    Except HttpError Session := do
  let roadmap := session.roadmap
  openRoadmap writer roadmap .content (some payload.expectedRoadmapVersion)
  if (roadmap.phaseByKey payload.key).isSome then .error (duplicateKey "key")
  else if roadmap.phases.length ≥ maxPhases then .error (limitExceeded "phases")
  else
    let row : PhaseRow :=
      { id := session.nextId
        key := payload.key
        position := roadmap.phases.length
        title := payload.title
        objective := textOrNone payload.objective
        version := 1 }
    .ok (commitContent { roadmap with phases := roadmap.phases ++ [row] } (session.nextId + 1))

structure PhaseUpdate where
  title : Option String
  objective : Option String

/-- The field as it is when the payload leaves it out. -/
def patched {α : Type} (payload : Option α) (current : α) : α := payload.getD current

/-- A text field: an empty string clears it. -/
def patchedText (payload : Option String) (current : Option String) : Option String :=
  match payload with
  | some text => textOrNone (some text)
  | none => current

def updatePhase (session : Session) (writer : Writer) (key : String) (payload : PhaseUpdate)
    (expectedVersion : Int) : Except HttpError Session := do
  let roadmap := session.roadmap
  openRoadmap writer roadmap .content none
  let phase ← findPhase roadmap key
  checkVersion phase.version expectedVersion
  let update := fun row : PhaseRow =>
    { row with
      title := patched payload.title row.title
      objective := patchedText payload.objective row.objective
      version := row.version + 1 }
  .ok (commitContent { roadmap with phases := updatePhaseRow phase.id update roadmap.phases }
    session.nextId)

def checkPermutation (current ordered : List String) : Except HttpError Unit :=
  if ordered.Nodup ∧ (∀ key ∈ ordered, key ∈ current) ∧ ∀ key ∈ current, key ∈ ordered then .ok ()
  else .error (invalidRoadmap .invalidReorder "ordered_keys")

structure Reorder where
  orderedKeys : List String
  expectedRoadmapVersion : Int

def reorderPhases (session : Session) (writer : Writer) (payload : Reorder) :
    Except HttpError Session := do
  let roadmap := session.roadmap
  openRoadmap writer roadmap .content (some payload.expectedRoadmapVersion)
  checkPermutation (roadmap.phasesInOrder.map (·.key)) payload.orderedKeys
  let ids := payload.orderedKeys.filterMap fun key => (roadmap.phaseByKey key).map (·.id)
  .ok (commitContent { roadmap with phases := repositionPhases ids roadmap.phases } session.nextId)

def deletePhase (session : Session) (writer : Writer) (key : String)
    (expectedRoadmapVersion : Int) : Except HttpError Session := do
  let roadmap := session.roadmap
  openRoadmap writer roadmap .content (some expectedRoadmapVersion)
  requireDraft roadmap
  let phase ← findPhase roadmap key
  if (roadmap.stepsOf phase.id).any fun step => !(roadmap.linksOf step.id).isEmpty then
    .error stepHasLinks
  else
    let left := roadmap.keepPhases (·.id ≠ phase.id)
    let ids := (roadmap.phasesInOrder.filter (·.id ≠ phase.id)).map (·.id)
    .ok (commitContent { left with phases := repositionPhases ids left.phases } session.nextId)

/-! ## Steps -/

structure StepCreate where
  content : StepContent
  expectedRoadmapVersion : Int

def createStep (session : Session) (writer : Writer) (phaseKey : String) (payload : StepCreate) :
    Except HttpError Session := do
  let roadmap := session.roadmap
  openRoadmap writer roadmap .content (some payload.expectedRoadmapVersion)
  let phase ← findPhase roadmap phaseKey
  let content := payload.content
  if (roadmap.stepByKey content.key).isSome then .error (duplicateKey "content.key")
  else if roadmap.steps.length ≥ maxSteps then .error (limitExceeded "steps")
  else if (roadmap.stepsOf phase.id).length ≥ maxStepsPerPhase then
    .error (limitExceeded "steps_per_phase")
  else if ¬ content.dependsOn.Nodup then
    .error (invalidRoadmap .duplicateDependency s!"steps.{content.key}.depends_on")
  else if content.key ∈ content.dependsOn then
    .error (invalidRoadmap .selfDependency s!"steps.{content.key}.depends_on")
  else
    let targets ← content.dependsOn.mapM (findStep roadmap)
    checkPlan roadmap content.key content.tasks
    let row := newStepRow session.nextId phase.id (roadmap.stepsOf phase.id).length content
    .ok (commitContent
      { roadmap with
        steps := roadmap.steps ++ [row]
        deps := roadmap.deps ++ targets.map fun target => ⟨row.id, target.id⟩ }
      (session.nextId + 1))

structure StepUpdate where
  title : Option String
  objective : Option String
  context : Option String
  instructions : Option String
  acceptanceCriteria : Option (List String)
  metadata : Option Metadata
  tasks : Option (List TaskPlanItem)

/-- The row as `update_step` assigns it. -/
def StepUpdate.apply (payload : StepUpdate) (row : StepRow) : StepRow :=
  { row with
    title := patched payload.title row.title
    objective := patchedText payload.objective row.objective
    context := patchedText payload.context row.context
    instructions := patchedText payload.instructions row.instructions
    criteriaChecked :=
      if payload.acceptanceCriteria.any (· ≠ row.acceptanceCriteria) then []
      else row.criteriaChecked
    acceptanceCriteria := patched payload.acceptanceCriteria row.acceptanceCriteria
    metadata := patched payload.metadata row.metadata
    taskPlan := patched payload.tasks row.taskPlan
    version := row.version + 1 }

def updateStep (session : Session) (writer : Writer) (key : String) (payload : StepUpdate)
    (expectedVersion : Int) : Except HttpError Session := do
  let roadmap := session.roadmap
  openRoadmap writer roadmap .content none
  let step ← findStep roadmap key
  checkVersion step.version expectedVersion
  checkTasks roadmap key payload.tasks
  .ok (commitContent { roadmap with steps := updateStepRow step.id payload.apply roadmap.steps }
    session.nextId)

def reorderSteps (session : Session) (writer : Writer) (phaseKey : String) (payload : Reorder) :
    Except HttpError Session := do
  let roadmap := session.roadmap
  openRoadmap writer roadmap .content (some payload.expectedRoadmapVersion)
  let phase ← findPhase roadmap phaseKey
  let siblings := roadmap.stepsOf phase.id
  checkPermutation (siblings.map (·.key)) payload.orderedKeys
  let ids := payload.orderedKeys.filterMap fun key =>
    (siblings.find? (·.key = key)).map (·.id)
  .ok (commitContent { roadmap with steps := repositionSteps ids roadmap.steps } session.nextId)

def deleteStep (session : Session) (writer : Writer) (key : String)
    (expectedRoadmapVersion : Int) : Except HttpError Session := do
  let roadmap := session.roadmap
  openRoadmap writer roadmap .content (some expectedRoadmapVersion)
  requireDraft roadmap
  let step ← findStep roadmap key
  if !(roadmap.linksOf step.id).isEmpty then .error stepHasLinks
  else
    let left := roadmap.keepSteps (·.id ≠ step.id)
    let ids := ((roadmap.stepsOf step.phaseId).filter (·.id ≠ step.id)).map (·.id)
    .ok (commitContent { left with steps := repositionSteps ids left.steps } session.nextId)

/-- The request model has refused a repeated index and an override given
together with its clearing. -/
structure StepProgressUpdate where
  stateOverride : Option StepStateOverride
  clearStateOverride : Bool
  stateOverrideReason : Option String
  notes : Option String
  criteriaChecked : Option (List Nat)

/-- The row as `update_step_progress` assigns it. -/
def StepProgressUpdate.apply (payload : StepProgressUpdate) (row : StepRow) : StepRow :=
  { row with
    stateOverride :=
      if payload.clearStateOverride then none
      else if payload.stateOverride.isSome then payload.stateOverride
      else row.stateOverride
    stateOverrideReason :=
      if payload.clearStateOverride then none
      else patchedText payload.stateOverrideReason row.stateOverrideReason
    notes := patchedText payload.notes row.notes
    criteriaChecked :=
      (payload.criteriaChecked.map fun checked => checked.insertionSort (· ≤ ·)).getD row.criteriaChecked
    version := row.version + 1 }

/-- Whether the override, and with it the derived state, changes. -/
def StepProgressUpdate.moves (payload : StepProgressUpdate) (row : StepRow) : Bool :=
  if payload.clearStateOverride then row.stateOverride.isSome
  else if payload.stateOverride.isSome then row.stateOverride ≠ payload.stateOverride
  else false

def updateStepProgress (session : Session) (writer : Writer) (key : String)
    (payload : StepProgressUpdate) (expectedVersion : Int) : Except HttpError Session := do
  let roadmap := session.roadmap
  openRoadmap writer roadmap .progress none
  let step ← findStep roadmap key
  checkVersion step.version expectedVersion
  if payload.criteriaChecked.any fun checked =>
      checked.any fun index => index ≥ step.acceptanceCriteria.length then
    .error (invalidRoadmap .limitExceeded s!"steps.{key}.criteria_checked")
  else
    .ok { session with
      roadmap := { roadmap with
        steps := updateStepRow step.id payload.apply roadmap.steps
        version := if payload.moves step then roadmap.version + 1 else roadmap.version } }

structure DependencyChange where
  stepKey : String
  dependsOnKey : String
  expectedRoadmapVersion : Int

/-- `edges[step.key].append(target.key)`. -/
def withEdge (stepKey targetKey : String) (edges : List (String × List String)) :
    List (String × List String) :=
  edges.map fun edge => if edge.1 = stepKey then (edge.1, edge.2 ++ [targetKey]) else edge

def addDependency (session : Session) (writer : Writer) (payload : DependencyChange) :
    Except HttpError Session := do
  let roadmap := session.roadmap
  openRoadmap writer roadmap .content (some payload.expectedRoadmapVersion)
  let step ← findStep roadmap payload.stepKey
  let target ← findStep roadmap payload.dependsOnKey
  if step.id = target.id then
    .error (invalidRoadmap .selfDependency s!"steps.{step.key}.depends_on")
  else if target.id ∈ roadmap.targetsOf step.id then .ok session
  else if (roadmap.targetsOf step.id).length ≥ maxDependenciesPerStep then
    .error (limitExceeded "dependencies_per_step")
  else
    match findDependencyCycle (withEdge step.key target.key roadmap.edges) with
    | some cycle =>
      .error (roadmapError 409 "dependency_cycle" [("path", " ".intercalate cycle)])
    | none =>
      .ok (commitContent { roadmap with deps := roadmap.deps ++ [⟨step.id, target.id⟩] }
        session.nextId)

def removeDependency (session : Session) (writer : Writer) (payload : DependencyChange) :
    Except HttpError Session := do
  let roadmap := session.roadmap
  openRoadmap writer roadmap .content (some payload.expectedRoadmapVersion)
  let step ← findStep roadmap payload.stepKey
  let target ← findStep roadmap payload.dependsOnKey
  if target.id ∉ roadmap.targetsOf step.id then .ok session
  else
    .ok (commitContent
      { roadmap with deps := roadmap.deps.filter (· ≠ (⟨step.id, target.id⟩ : DependencyRow)) }
      session.nextId)

/-- A step and its roadmap, one version on. -/
def Roadmap.linkChanged (roadmap : Roadmap) (stepId : RowId) : Roadmap :=
  { roadmap with
    steps := updateStepRow stepId (fun row => { row with version := row.version + 1 }) roadmap.steps
    version := roadmap.version + 1 }

/-- `link_task`; `task` is the row of the task id. -/
def linkTask (session : Session) (writer : Writer) (key : String) (task : Option TaskRow) :
    Except HttpError Session := do
  let roadmap := session.roadmap
  openRoadmap writer roadmap .link none
  let step ← findStep roadmap key
  match task with
  | none => .error (referenceNotFound "task")
  | some task =>
    if task.projectId ≠ roadmap.projectId then
      .error (roadmapError 422 "task_project_mismatch"
        [("message", "the task belongs to another project")])
    else if (roadmap.linksOf step.id).any (·.taskId = task.id) then .ok session
    else if (roadmap.linksOf step.id).length ≥ maxLinksPerStep then
      .error (limitExceeded "links_per_step")
    else
      let linked := { roadmap with links := roadmap.links ++ [(⟨step.id, task.id, none⟩ : LinkRow)] }
      .ok { session with roadmap := linked.linkChanged step.id }

def unlinkTask (session : Session) (writer : Writer) (key : String) (taskId : RowId) :
    Except HttpError Session := do
  let roadmap := session.roadmap
  openRoadmap writer roadmap .link none
  let step ← findStep roadmap key
  if (roadmap.linksOf step.id).all (·.taskId ≠ taskId) then .ok session
  else
    let unlinked := { roadmap with
      links := roadmap.links.filter fun link => !(link.stepId = step.id && link.taskId = taskId) }
    .ok { session with roadmap := unlinked.linkChanged step.id }

end StudioOS.Roadmaps
