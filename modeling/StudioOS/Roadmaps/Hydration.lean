import StudioOS.Roadmaps.Lifecycle

/-!
# Hydration — task plans made real

`services/roadmap_hydration.py`: `preview_hydration` and `apply_hydration`
share `_plan`. A hydrated task is new, and the link to it carries the
hydration key of its plan item.
-/

namespace StudioOS.Roadmaps

inductive HydrationAction where
  | create
  | reuse
  | skip
deriving DecidableEq, Repr

inductive HydrationReason where
  | stepDone
  | stepSkipped
  | roadmapNotActive
deriving DecidableEq, Repr

structure HydrationItem where
  stepKey : String
  hydrationKey : String
  action : HydrationAction
  title : String
  taskId : Option RowId
  reason : Option HydrationReason
deriving DecidableEq, Repr

structure HydrationCounts where
  create : Nat
  reuse : Nat
  skip : Nat
deriving DecidableEq, Repr

structure HydrationResult where
  roadmapId : RowId
  roadmapVersion : Int
  applied : Bool
  applicable : Bool
  notApplicableReason : Option HydrationReason
  items : List HydrationItem
  counts : HydrationCounts

structure PlannedItem where
  step : StepRow
  plan : TaskPlanItem
  item : HydrationItem

def taskStatus (tasks : List TaskRow) (taskId : RowId) : Option TaskStatusValue :=
  (tasks.find? (·.id = taskId)).map (·.status)

/-- `RoadmapTree._state`. -/
def stepState (tasks : List TaskRow) (roadmap : Roadmap) (step : StepRow) : StepState :=
  deriveStepState step.stateOverride
    ((roadmap.linksOf step.id).filterMap fun link => taskStatus tasks link.taskId)

/-- The task linked to a step under a hydration key. -/
def Roadmap.linked (roadmap : Roadmap) (stepId : RowId) (hydrationKey : String) : Option RowId :=
  ((roadmap.linksOf stepId).find? (·.hydrationKey = some hydrationKey)).map (·.taskId)

def planAction (state : StepState) (existing : Option RowId) : HydrationAction :=
  match state with
  | .done | .skipped => .skip
  | .notStarted | .inProgress | .blocked => if existing.isSome then .reuse else .create

def planReason : StepState → Option HydrationReason
  | .done => some .stepDone
  | .skipped => some .stepSkipped
  | .notStarted | .inProgress | .blocked => none

def planItem (tasks : List TaskRow) (roadmap : Roadmap) (step : StepRow) (plan : TaskPlanItem) :
    PlannedItem :=
  let existing := roadmap.linked step.id plan.hydrationKey
  let state := stepState tasks roadmap step
  { step := step
    plan := plan
    item :=
      { stepKey := step.key
        hydrationKey := plan.hydrationKey
        action := planAction state existing
        title := plan.title
        taskId := existing
        reason := planReason state } }

def wanted (stepKeys : Option (List String)) (step : StepRow) : Bool :=
  match stepKeys with
  | none => true
  | some keys => step.key ∈ keys

/-- `_plan`. -/
def planHydration (tasks : List TaskRow) (roadmap : Roadmap) (stepKeys : Option (List String)) :
    Except HttpError (List PlannedItem) :=
  match (stepKeys.getD []).find? fun key => (roadmap.stepByKey key).isNone with
  | some key => .error (referenceNotFound s!"step {key}")
  | none =>
    .ok ((roadmap.stepsInOrder.filter (wanted stepKeys)).flatMap fun step =>
      step.taskPlan.map (planItem tasks roadmap step))

def countHydration (items : List HydrationItem) : HydrationCounts :=
  { create := items.countP (·.action = .create)
    reuse := items.countP (·.action = .reuse)
    skip := items.countP (·.action = .skip) }

/-- `_result`. -/
def hydrationResult (roadmap : Roadmap) (items : List HydrationItem) (applied : Bool) :
    HydrationResult :=
  { roadmapId := roadmap.id
    roadmapVersion := roadmap.version
    applied := applied
    applicable := roadmap.status = .active
    notApplicableReason := if roadmap.status = .active then none else some .roadmapNotActive
    items := items
    counts := countHydration items }

def previewHydration (tasks : List TaskRow) (roadmap : Roadmap) (principal : Authz.Principal)
    (stepKeys : Option (List String)) : Except HttpError HydrationResult := do
  Authz.ensureProjectAccess principal roadmap.projectId "read"
  if roadmap.status = .archived then
    .error (invalidState .archived "an archived roadmap cannot be hydrated" none)
  else
    let planned ← planHydration tasks roadmap stepKeys
    .ok (hydrationResult roadmap (planned.map (·.item)) false)

structure HydrationApplyRequest where
  stepKeys : Option (List String)
  expectedVersion : Int

/-- What the loop of `apply_hydration` has written and answered. -/
structure Hydrated where
  session : Session
  tasks : List TaskRow
  items : List HydrationItem

def addTask (principal : Authz.Principal) (projectId : Uuid) (id : RowId) (title : String)
    (description : Option String) : Except HttpError TaskRow := do
  Authz.ensureProjectAccess principal projectId "write"
  Authz.ensureCanWrite principal "task"
  .ok { id := id, projectId := projectId, title := title, description := description,
        status := .created }

/-- One planned item: a task and its link when it is to be created. -/
def hydrateItem (principal : Authz.Principal) (state : Hydrated) (entry : PlannedItem) :
    Except HttpError Hydrated :=
  if entry.item.action ≠ .create then
    .ok { state with items := state.items ++ [entry.item] }
  else do
    let roadmap := state.session.roadmap
    let task ← addTask principal roadmap.projectId state.session.nextId entry.plan.title
      entry.plan.description
    let link : LinkRow := ⟨entry.step.id, task.id, some entry.plan.hydrationKey⟩
    .ok
      { session :=
          { roadmap := { roadmap with links := roadmap.links ++ [link] }
            nextId := state.session.nextId + 1 }
        tasks := state.tasks ++ [task]
        items := state.items ++ [{ entry.item with taskId := some task.id }] }

def hydrateItems (principal : Authz.Principal) (state : Hydrated) :
    List PlannedItem → Except HttpError Hydrated
  | [] => .ok state
  | entry :: planned => do
    let state ← hydrateItem principal state entry
    hydrateItems principal state planned

/-- `apply_hydration`: the session and the tasks it leaves, and its answer. -/
def applyHydration (session : Session) (tasks : List TaskRow) (writer : Writer)
    (payload : HydrationApplyRequest) :
    Except HttpError (Session × List TaskRow × HydrationResult) := do
  let roadmap := session.roadmap
  guardWrite writer roadmap .hydrationApply
  resolveProvenance writer
  checkVersion roadmap.version payload.expectedVersion
  let planned ← planHydration tasks roadmap payload.stepKeys
  let state ← hydrateItems writer.principal ⟨session, tasks, []⟩ planned
  .ok (state.session, state.tasks, hydrationResult state.session.roadmap state.items true)

end StudioOS.Roadmaps
