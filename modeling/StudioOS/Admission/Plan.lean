import StudioOS.Roadmaps.Contract
import StudioOS.Budgets.Model

/-!
# Plan — the admission dry-run of a roadmap

`services/admission_rules.py`, `services/eligibility.py` and the read half of
`services/admission.py`: which linked tasks of a roadmap could be launched
now, on which machines, and why every other task is excluded.
-/

namespace StudioOS.Admission

open Authz Roadmaps Budgets Launches

/-! ## The rows -/

structure HarnessReport where
  harnessId : String
  detected : Bool
  configured : Bool

/-- `MachineCapabilities`, as `parse_stored_capabilities` reads it. -/
structure MachineCapabilities where
  harnesses : List HarnessReport
  projectIds : List Uuid
  acceptsLaunches : Bool
  runningLaunches : Nat
  maxLaunches : Nat
  launchSafety : Option Bool

structure MachineRow where
  id : Uuid
  ownerUserId : Uuid
  displayName : String
  lastSeenAt : Option Timestamp
  capabilities : Option MachineCapabilities
  capabilitiesReportedAt : Option Timestamp
  credentialRevokedAt : Option Timestamp

structure UserRow where
  id : Uuid
  role : Role

structure MembershipRow where
  userId : Uuid
  projectId : Uuid

structure GrantRow where
  machineId : Uuid
  userId : Uuid
  projectId : Option Uuid
  expiresAt : Option Timestamp

structure TaskRow where
  id : Uuid
  title : String
  status : TaskStatusValue
  claimedByMachineId : Option Uuid

/-- A step of `RoadmapTree.steps`, with its links and dependencies in the
order of the tree. -/
structure StepRow where
  key : String
  stateOverride : Option StepStateOverride
  dependsOn : List String
  taskIds : List Uuid

/-- A roadmap as `load_tree` gives it. -/
structure RoadmapTree where
  id : Uuid
  projectId : Uuid
  status : RoadmapStatus
  version : Int
  steps : List StepRow

structure AIWorkRow where
  taskId : Option Uuid
  reviewRequested : Bool

structure DecisionRow where
  taskId : Option Uuid
  proposed : Bool

structure ClaimRow where
  projectId : Uuid
  taskId : Option Uuid
  claimedByMachineId : Uuid
  active : Bool
  expiresAt : Timestamp

/-- `LaunchProfilePin`, as far as a launch stores it. -/
structure LaunchProfilePin where
  contractVersion : Int
  digest : String

structure LaunchRow where
  id : Uuid
  launch : Launch
  pin : Option LaunchProfilePin

structure LaunchEventPayload where
  launchId : Uuid
  machineId : Uuid
  harnessId : String
  status : TaskLaunchStatus
  previousStatus : String
  reasonCode : TaskLaunchReasonCode

structure EventRow where
  eventId : Uuid
  eventType : String
  projectId : Uuid
  taskId : Uuid
  machineId : Uuid
  actorType : String
  actorId : Uuid
  clientTimestamp : Timestamp
  payload : LaunchEventPayload

/-- The tables an admission reads and writes; `machines` in the order of
`created_at`. -/
structure Db where
  roadmaps : List RoadmapTree
  tasks : List TaskRow
  aiWork : List AIWorkRow
  decisions : List DecisionRow
  claims : List ClaimRow
  machines : List MachineRow
  users : List UserRow
  memberships : List MembershipRow
  grants : List GrantRow
  launches : List LaunchRow
  policies : List BudgetPolicy
  reservations : List Reservation
  ledger : List UsageEntry
  events : List EventRow

/-! ## Machine eligibility -/

structure Settings where
  heartbeatIntervalSeconds : Nat
  heartbeatOfflineAfterSeconds : Nat

inductive MachineStatus where
  | online
  | idle
  | offline
deriving DecidableEq

def deriveStatus (machine : MachineRow) (settings : Settings) (now : Timestamp) : MachineStatus :=
  match machine.lastSeenAt with
  | none => .offline
  | some lastSeenAt =>
    let age := now - lastSeenAt
    if 2 * age ≤ 3 * seconds settings.heartbeatIntervalSeconds then .online
    else if age ≤ seconds settings.heartbeatOfflineAfterSeconds then .idle
    else .offline

inductive IneligibilityReason where
  | offline
  | noCapabilitiesReport
  | capabilitiesStale
  | ownerNoProjectAccess
  | projectNotRegistered
  | launchesNotAccepted
  | launchSafetyUnsupported
  | harnessIncompatible
  | atCapacity

structure MachineEligibility where
  machineId : Uuid
  displayName : String
  status : MachineStatus
  eligible : Bool
  reasons : List IneligibilityReason
  harnesses : List HarnessReport
  freeSlots : Nat
  reportedAt : Option Timestamp

/-- A reason, when its condition holds. -/
def reasonIf {ρ : Type} (condition : Bool) (reason : ρ) : List ρ :=
  if condition then [reason] else []

def harnessIncompatible (harnessId : Option String) (harnesses : List HarnessReport) : Bool :=
  let usable := harnesses.filter fun h => h.detected && h.configured
  match harnessId with
  | some harnessId => usable.all (·.harnessId ≠ harnessId)
  | none => usable = []

/-- The reasons and the free slots that a capability report gives. -/
def evaluateCapabilities (capabilities : MachineCapabilities) (projectId : Uuid)
    (harnessId : Option String) (unreportedLaunches : Nat) : List IneligibilityReason × Nat :=
  let freeSlots := capabilities.maxLaunches - capabilities.runningLaunches - unreportedLaunches
  (reasonIf (projectId ∉ capabilities.projectIds) .projectNotRegistered ++
    reasonIf (!capabilities.acceptsLaunches) .launchesNotAccepted ++
    reasonIf (capabilities.launchSafety ≠ some true) .launchSafetyUnsupported ++
    reasonIf (harnessIncompatible harnessId capabilities.harnesses) .harnessIncompatible ++
    reasonIf (freeSlots = 0) .atCapacity, freeSlots)

/-- `evaluate` of `services/eligibility.py`. -/
def evaluate (machine : MachineRow) (projectId : Uuid) (ownerHasAccess : Bool)
    (harnessId : Option String) (settings : Settings) (now : Timestamp)
    (unreportedLaunches : Nat) : MachineEligibility :=
  let status := deriveStatus machine settings now
  let report :=
    match machine.capabilities, machine.capabilitiesReportedAt with
    | some _, some reportedAt =>
      reasonIf (seconds settings.heartbeatOfflineAfterSeconds < now - reportedAt)
        .capabilitiesStale
    | _, _ => [.noCapabilitiesReport]
  let (reported, freeSlots) :=
    match machine.capabilities with
    | none => ([], 0)
    | some capabilities => evaluateCapabilities capabilities projectId harnessId unreportedLaunches
  let reasons := reasonIf (status ≠ .online) .offline ++ report ++
    reasonIf (!ownerHasAccess) .ownerNoProjectAccess ++ reported
  { machineId := machine.id
    displayName := machine.displayName
    status := status
    eligible := reasons = []
    reasons := reasons
    harnesses := (machine.capabilities.map (·.harnesses)).getD []
    freeSlots := freeSlots
    reportedAt := machine.capabilitiesReportedAt }

/-- `unreported_launch_counts`, for one machine. -/
def unreportedLaunches (launches : List LaunchRow) (machine : MachineRow) (now : Timestamp) : Nat :=
  launches.countP fun row =>
    row.launch.machineId = machine.id ∧
      ((row.launch.status = .requested ∧ now < row.launch.expiresAt) ∨
        (row.launch.status ∈ [TaskLaunchStatus.accepted, .preparing, .running] ∧
          machine.capabilitiesReportedAt.all (· < row.launch.createdAt)))

def loadProjectScope (memberships : List MembershipRow) (userId : Uuid) (role : Role) :
    ProjectScope :=
  if role = .admin then .allProjects
  else .projects ((memberships.filter (·.userId = userId)).map (·.projectId))

def ownerHasAccess (db : Db) (principal : Principal) (ownerId projectId : Uuid) : Bool :=
  if ownerId = userId principal then hasProjectAccess principal projectId
  else
    match db.users.find? (·.id = ownerId) with
    | none => false
    | some owner =>
      match loadProjectScope db.memberships ownerId owner.role with
      | .allProjects => true
      | .projects ids => projectId ∈ ids

def listActiveMachines (db : Db) (owner : Option Uuid) : List MachineRow :=
  db.machines.filter fun machine =>
    machine.credentialRevokedAt = none ∧ owner.all (machine.ownerUserId = ·)

/-- The sort key of `eligible_machines`. -/
def eligibilityLe (a b : MachineEligibility) : Bool :=
  if a.eligible ≠ b.eligible then a.eligible
  else if a.displayName ≠ b.displayName then a.displayName < b.displayName
  else a.machineId.str ≤ b.machineId.str

def eligibleMachines (db : Db) (principal : Principal) (projectId : Uuid)
    (harnessId : Option String) (settings : Settings) (now : Timestamp) : List MachineEligibility :=
  let owner := if principal.role = .admin then none else some (userId principal)
  ((listActiveMachines db owner).map fun machine =>
    evaluate machine projectId (ownerHasAccess db principal machine.ownerUserId projectId) harnessId
      settings now (unreportedLaunches db.launches machine now)).insertionSort (eligibilityLe · ·)

/-! ## The rules -/

inductive AdmissionExclusionReason where
  | roadmapNotActive
  | dependencyPending
  | taskDataMissing
  | taskCompleted
  | taskBlocked
  | reviewPending
  | launchActive
  | taskClaimedElsewhere
  | claimsHeldElsewhere
  | noEligibleMachine

structure TaskFacts where
  taskId : Uuid
  title : Option String
  status : Option TaskStatusValue
  claimedByMachineId : Option Uuid
  launchActive : Bool
  reviewPending : Bool
  liveClaimMachineIds : List Uuid

structure StepFacts where
  key : String
  state : StepState
  waitingOn : List String
  tasks : List TaskFacts

structure AdmissionSnapshot where
  roadmapId : Uuid
  projectId : Uuid
  roadmapStatus : RoadmapStatus
  roadmapVersion : Int
  harnessId : Option String
  steps : List StepFacts
  machines : List MachineEligibility

structure AdmissionCandidate where
  taskId : Uuid
  stepKey : String
  title : String
  machineIds : List Uuid

structure AdmissionExclusion where
  taskId : Uuid
  stepKey : String
  title : Option String
  reasons : List AdmissionExclusionReason
  waitingOn : List String

structure AdmissionDryRun where
  roadmapId : Uuid
  projectId : Uuid
  roadmapStatus : RoadmapStatus
  roadmapVersion : Int
  harnessId : Option String
  launchable : List AdmissionCandidate
  excluded : List AdmissionExclusion
  stepsWithoutTasks : List String
  machines : List MachineEligibility
  planDigest : String
  evaluatedAt : Timestamp

/-- The payload of `_plan_digest`: no count of slots and no time. -/
structure DigestPayload where
  roadmapId : Uuid
  roadmapVersion : Int
  roadmapStatus : RoadmapStatus
  harnessId : Option String
  launchable : List AdmissionCandidate
  excluded : List AdmissionExclusion
  stepsWithoutTasks : List String
  machines : List (Uuid × Bool × List IneligibilityReason)

def statusReasons : Option TaskStatusValue → List AdmissionExclusionReason
  | none => [.taskDataMissing]
  | some .completed => [.taskCompleted]
  | some .blocked => [.taskBlocked]
  | some .created | some .inProgress => []

/-- The candidate machines of a task, and the reason its claim gives. -/
def claimCandidates (eligible : List MachineEligibility) (task : TaskFacts) :
    List MachineEligibility × List AdmissionExclusionReason :=
  match task.claimedByMachineId with
  | none => (eligible, [])
  | some claimedBy =>
    if claimedBy ∈ eligible.map (·.machineId) then
      (eligible.filter (·.machineId = claimedBy), [])
    else (eligible, [.taskClaimedElsewhere])

/-- The body of the inner loop of `compose_dry_run`. -/
def placeTask (snapshot : AdmissionSnapshot) (step : StepFacts) (task : TaskFacts) :
    AdmissionExclusion ⊕ AdmissionCandidate :=
  let eligible := snapshot.machines.filter (·.eligible)
  let (candidates, claimed) := claimCandidates eligible task
  let remaining := candidates.map (·.machineId)
  let reasons :=
    reasonIf (snapshot.roadmapStatus ≠ .active) .roadmapNotActive ++
      reasonIf (step.waitingOn ≠ []) .dependencyPending ++ statusReasons task.status ++
      reasonIf task.reviewPending .reviewPending ++ reasonIf task.launchActive .launchActive ++
      claimed ++ reasonIf (task.liveClaimMachineIds.any (· ∉ remaining)) .claimsHeldElsewhere ++
      reasonIf (candidates = []) .noEligibleMachine
  if reasons ≠ [] then
    .inl
      { taskId := task.taskId
        stepKey := step.key
        title := task.title
        reasons := reasons
        waitingOn := step.waitingOn }
  else
    .inr
      { taskId := task.taskId
        stepKey := step.key
        title := task.title.getD ""
        machineIds := remaining }

/-- The steps that are neither done nor skipped. -/
def openSteps (snapshot : AdmissionSnapshot) : List StepFacts :=
  snapshot.steps.filter fun step => step.state ≠ .done ∧ step.state ≠ .skipped

/-- Every task of the open steps, placed. -/
def placements (snapshot : AdmissionSnapshot) : List (AdmissionExclusion ⊕ AdmissionCandidate) :=
  (openSteps snapshot).flatMap fun step => step.tasks.map (placeTask snapshot step)

def composeDryRun (digest : DigestPayload → String) (snapshot : AdmissionSnapshot)
    (evaluatedAt : Timestamp) : AdmissionDryRun :=
  let launchable := (placements snapshot).filterMap Sum.getRight?
  let excluded := (placements snapshot).filterMap Sum.getLeft?
  let stepsWithoutTasks := ((openSteps snapshot).filter (·.tasks = [])).map (·.key)
  { roadmapId := snapshot.roadmapId
    projectId := snapshot.projectId
    roadmapStatus := snapshot.roadmapStatus
    roadmapVersion := snapshot.roadmapVersion
    harnessId := snapshot.harnessId
    launchable := launchable
    excluded := excluded
    stepsWithoutTasks := stepsWithoutTasks
    machines := snapshot.machines
    planDigest := digest
      { roadmapId := snapshot.roadmapId
        roadmapVersion := snapshot.roadmapVersion
        roadmapStatus := snapshot.roadmapStatus
        harnessId := snapshot.harnessId
        launchable := launchable
        excluded := excluded
        stepsWithoutTasks := stepsWithoutTasks
        machines := snapshot.machines.map fun machine =>
          (machine.machineId, machine.eligible, machine.reasons) }
    evaluatedAt := evaluatedAt }

/-- `_launch_active_task_ids`. -/
def launchActive (db : Db) (taskId : Uuid) : Bool :=
  db.launches.any fun row => row.launch.taskId = taskId ∧
    row.launch.status ∈ [TaskLaunchStatus.requested, .accepted, .preparing, .running]

/-- `_review_pending_task_ids`. -/
def reviewPending (db : Db) (taskId : Uuid) : Bool :=
  (db.aiWork.any fun row => row.reviewRequested && row.taskId = some taskId) ||
    db.decisions.any fun row => row.proposed && row.taskId = some taskId

/-- `_live_claim_machines_by_task`. -/
def liveClaimMachines (db : Db) (projectId taskId : Uuid) (now : Timestamp) : List Uuid :=
  (db.claims.filter fun claim => claim.projectId = projectId ∧ claim.active ∧
    now < claim.expiresAt ∧
    claim.taskId = some taskId).map (·.claimedByMachineId)

def taskFacts (db : Db) (projectId taskId : Uuid) (now : Timestamp) : TaskFacts :=
  let task := db.tasks.find? (·.id = taskId)
  { taskId := taskId
    title := task.map (·.title)
    status := task.map (·.status)
    claimedByMachineId := task.bind (·.claimedByMachineId)
    launchActive := launchActive db taskId
    reviewPending := reviewPending db taskId
    liveClaimMachineIds := liveClaimMachines db projectId taskId now }

def StepRow.state (db : Db) (step : StepRow) : StepState :=
  deriveStepState step.stateOverride
    (step.taskIds.filterMap fun taskId => (db.tasks.find? (·.id = taskId)).map (·.status))

/-- `waiting_on`, with the states of the tree. -/
def waitingOn (db : Db) (tree : RoadmapTree) (step : StepRow) : List String :=
  (step.dependsOn.filter fun key =>
    ((tree.steps.find? (·.key = key)).map (·.state db)).all
      fun state => state ≠ .done ∧ state ≠ .skipped).insertionSort (· ≤ ·)

def stepFacts (db : Db) (tree : RoadmapTree) (now : Timestamp) (step : StepRow) : StepFacts :=
  { key := step.key
    state := step.state db
    waitingOn := waitingOn db tree step
    tasks := step.taskIds.map fun taskId => taskFacts db tree.projectId taskId now }

/-- `not_found` of `services/roadmap_support.py`. -/
def roadmapNotFound : HttpError :=
  { status := 404, detail := [("error_code", "not_found"), ("message", "roadmap")] }

def ensureRoadmapAccess (db : Db) (principal : Principal) (roadmapId : Uuid) (action : String) :
    Except HttpError RoadmapTree := do
  match db.roadmaps.find? (·.id = roadmapId) with
  | none => .error roadmapNotFound
  | some tree =>
    ensureProjectAccess principal tree.projectId action
    return tree

def admissionSnapshot (db : Db) (principal : Principal) (tree : RoadmapTree)
    (harnessId : Option String) (settings : Settings) (now : Timestamp) : AdmissionSnapshot :=
  { roadmapId := tree.id
    projectId := tree.projectId
    roadmapStatus := tree.status
    roadmapVersion := tree.version
    harnessId := harnessId
    steps := tree.steps.map (stepFacts db tree now)
    machines := eligibleMachines db principal tree.projectId harnessId settings now }

def dryRun (digest : DigestPayload → String) (db : Db) (principal : Principal) (roadmapId : Uuid)
    (harnessId : Option String) (settings : Settings) (now : Timestamp) :
    Except HttpError AdmissionDryRun := do
  let tree ← ensureRoadmapAccess db principal roadmapId "read"
  return composeDryRun digest (admissionSnapshot db principal tree harnessId settings now) now

end StudioOS.Admission
