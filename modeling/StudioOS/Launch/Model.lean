import StudioOS.Authz

/-!
# Launch — Model

The rows and the decisions of a task launch: the contract's statuses and
`ALLOWED_TRANSITIONS`, the row of `task_launches`, what each service
assigns to it, and the verdict of `expire_launch_if_overdue`. Who runs
these when, under which lock, is `Launch/System`.
-/

namespace StudioOS.Launches

open Authz

def launchMaxTtlSeconds : Nat := 86400

inductive TaskLaunchStatus where
  | requested
  | accepted
  | preparing
  | running
  | succeeded
  | failed
  | cancelled
  | rejected
  | expired
deriving DecidableEq

def TaskLaunchStatus.value : TaskLaunchStatus → String
  | .requested => "requested"
  | .accepted => "accepted"
  | .preparing => "preparing"
  | .running => "running"
  | .succeeded => "succeeded"
  | .failed => "failed"
  | .cancelled => "cancelled"
  | .rejected => "rejected"
  | .expired => "expired"

inductive TaskLaunchActor where
  | requester
  | machine
  | server
deriving DecidableEq

inductive TaskLaunchReasonCode where
  | none
  | notOptedIn
  | projectNotRegistered
  | harnessNotAllowed
  | harnessNotFound
  | agentNotFound
  | capacityReached
  | preparationFailed
  | harnessExited
  | cancelledByRequester
  | expiredUnpulled
  | expiredTimeout
deriving DecidableEq

def terminalStatuses : List TaskLaunchStatus :=
  [.succeeded, .failed, .cancelled, .rejected, .expired]

def TaskLaunchStatus.isTerminal (status : TaskLaunchStatus) : Bool := status ∈ terminalStatuses

def linkableStatuses : List TaskLaunchStatus := [.accepted, .preparing, .running]

/-- `ALLOWED_TRANSITIONS`: the actor that may drive the transition. -/
def allowedTransitions : TaskLaunchStatus → TaskLaunchStatus → Option TaskLaunchActor
  | .requested, .accepted => some .machine
  | .requested, .rejected => some .machine
  | .requested, .cancelled => some .requester
  | .requested, .expired => some .server
  | .accepted, .preparing => some .machine
  | .accepted, .failed => some .machine
  | .accepted, .cancelled => some .requester
  | .accepted, .expired => some .server
  | .preparing, .running => some .machine
  | .preparing, .failed => some .machine
  | .preparing, .cancelled => some .requester
  | .preparing, .expired => some .server
  | .running, .succeeded => some .machine
  | .running, .failed => some .machine
  | .running, .cancelled => some .requester
  | .running, .expired => some .server
  | _, _ => none

/-- An accepted `expires_in_seconds`. -/
structure Ttl where
  seconds : Nat
  at_least : 60 ≤ seconds
  at_most : seconds ≤ launchMaxTtlSeconds

structure TaskLaunchCreate where
  taskId : Uuid
  machineId : Uuid
  harnessId : String
  agentStableKey : Option String
  profileKey : Option String
  expiresIn : Ttl

structure TaskLaunchMachineReport where
  expectedVersion : Int
  status : TaskLaunchStatus
  reasonCode : TaskLaunchReasonCode
  sessionId : Option Uuid
  outputExcerpt : Option String

structure TaskLaunchCancel where
  expectedVersion : Int

/-- `TaskLaunchRetry`. `replay` is the `preview_digest` of its
confirmation; without one the retry is plain. -/
structure TaskLaunchRetry where
  expiresIn : Ttl
  replay : Option String

/-- `TaskLaunchModel`. `replayDigest` is the `preview_digest` of its
`replay_basis`. -/
structure Launch where
  projectId : Uuid
  taskId : Uuid
  machineId : Uuid
  requestedByUserId : Uuid
  harnessId : String
  agentStableKey : Option String
  profileKey : Option String
  status : TaskLaunchStatus
  reasonCode : TaskLaunchReasonCode
  sessionId : Option Uuid
  outputExcerpt : Option String
  expiresAt : Timestamp
  finishedAt : Option Timestamp
  attempt : Nat
  retryOfLaunchId : Option Uuid
  replayDigest : Option String
  createdAt : Timestamp
  updatedAt : Timestamp
  version : Nat
deriving DecidableEq

/-- `WorkSessionModel`. -/
structure WorkSession where
  machineId : Option Uuid
  taskId : Option Uuid
  startedAt : Timestamp
  lastActivityAt : Option Timestamp
  endedAt : Option Timestamp

inductive ClaimStatus where
  | active
  | released
deriving DecidableEq

/-- `ResourceClaimModel`. -/
structure ResourceClaim where
  taskId : Option Uuid
  claimedByMachineId : Uuid
  status : ClaimStatus
  releasedAt : Option Timestamp

/-- The flush of a launch: `UPDATE … WHERE id`, with the columns whose
value differs from the one that was loaded. Any such column also sets
`updated_at`, to the start of the transaction. -/
def Launch.flush (loaded assigned current : Launch) (began : Timestamp) : Launch :=
  { current with
    status := flushed loaded.status assigned.status current.status
    reasonCode := flushed loaded.reasonCode assigned.reasonCode current.reasonCode
    sessionId := flushed loaded.sessionId assigned.sessionId current.sessionId
    outputExcerpt := flushed loaded.outputExcerpt assigned.outputExcerpt current.outputExcerpt
    expiresAt := flushed loaded.expiresAt assigned.expiresAt current.expiresAt
    finishedAt := flushed loaded.finishedAt assigned.finishedAt current.finishedAt
    version := flushed loaded.version assigned.version current.version
    updatedAt := if assigned = loaded then current.updatedAt else began }

theorem Launch.flush_same (row assigned : Launch) (began) :
    row.flush assigned row began =
      { row with
        status := assigned.status
        reasonCode := assigned.reasonCode
        sessionId := assigned.sessionId
        outputExcerpt := assigned.outputExcerpt
        expiresAt := assigned.expiresAt
        finishedAt := assigned.finishedAt
        version := assigned.version
        updatedAt := if assigned = row then row.updatedAt else began } := by
  simp [Launch.flush, flushed_fresh]

def Launch.prolonged (launch : Launch) (expiresAt : Timestamp) : Launch :=
  { launch with expiresAt := expiresAt }

/-- The columns of a server expiry. -/
def Launch.expired (launch : Launch) (now : Timestamp) : Launch :=
  { launch with
    status := .expired
    reasonCode := if launch.status = .requested then .expiredUnpulled else .expiredTimeout
    finishedAt := some now
    version := launch.version + 1 }

/-- The columns of `report_launch`. -/
def Launch.reported (launch : Launch) (report : TaskLaunchMachineReport) (now : Timestamp) :
    Launch :=
  { launch with
    status := report.status
    reasonCode := report.reasonCode
    sessionId := if report.sessionId.isSome then report.sessionId else launch.sessionId
    outputExcerpt := report.outputExcerpt
    finishedAt := if report.status.isTerminal then some now else launch.finishedAt
    version := launch.version + 1 }

/-- The columns of `cancel_launch`. -/
def Launch.cancelled (launch : Launch) (now : Timestamp) : Launch :=
  { launch with
    status := .cancelled
    reasonCode := .cancelledByRequester
    finishedAt := some now
    version := launch.version + 1 }

def Launch.linked (launch : Launch) (sessionId : Uuid) : Launch :=
  { launch with sessionId := some sessionId }

/-- The row of `stage_launch`. The database takes the start of the
transaction, `began`, for `created_at`. -/
def stageLaunch (projectId requestedByUserId : Uuid) (launchIn : TaskLaunchCreate) (attempt : Nat)
    (retryOfLaunchId : Option Uuid) (replayDigest : Option String) (now began : Timestamp) :
    Launch :=
  { projectId := projectId
    taskId := launchIn.taskId
    machineId := launchIn.machineId
    requestedByUserId := requestedByUserId
    harnessId := launchIn.harnessId
    agentStableKey := launchIn.agentStableKey
    profileKey := launchIn.profileKey
    status := .requested
    reasonCode := .none
    sessionId := none
    outputExcerpt := none
    expiresAt := now + seconds launchIn.expiresIn.seconds
    finishedAt := none
    attempt := attempt
    retryOfLaunchId := retryOfLaunchId
    replayDigest := replayDigest
    createdAt := began
    updatedAt := began
    version := 1 }

/-- What `retry_launch` asks `create_launch` for. -/
def Launch.retryOf (launch : Launch) (retry : TaskLaunchRetry) : TaskLaunchCreate :=
  { taskId := launch.taskId
    machineId := launch.machineId
    harnessId := launch.harnessId
    agentStableKey := launch.agentStableKey
    profileKey := launch.profileKey
    expiresIn := retry.expiresIn }

structure Settings where
  launchActivityGraceSeconds : Nat
  at_least : 60 ≤ launchActivityGraceSeconds
  at_most : launchActivityGraceSeconds ≤ 86400

/-- What `expire_launch_if_overdue` decides. An expiry carries the session
it found open. -/
inductive Verdict where
  | keep
  | prolong (expiresAt : Timestamp)
  | expire (openSession : Option Uuid)

def linkedOpenSession (sessions : Uuid → Option WorkSession) (launch : Launch) :
    Option (Uuid × WorkSession) := do
  let sessionId ← launch.sessionId
  let workSession ← sessions sessionId
  if workSession.endedAt = none then some (sessionId, workSession) else none

/-- `created_at` and the longest time to live. -/
def Launch.hardDeadline (launch : Launch) : Timestamp :=
  launch.createdAt + seconds launchMaxTtlSeconds

/-- The decision of `expire_launch_if_overdue`. -/
def evaluate (settings : Settings) (launch : Launch) (now : Timestamp)
    (openSession : Option (Uuid × WorkSession)) : Verdict :=
  if launch.status.isTerminal then .keep
  else if now < launch.expiresAt then .keep
  else
    match openSession with
    | none => .expire none
    | some (sessionId, workSession) =>
      let activity := workSession.lastActivityAt.getD workSession.startedAt
      let grace := seconds settings.launchActivityGraceSeconds
      if now < launch.hardDeadline ∧ now - activity ≤ grace then
        .prolong (min (now + grace) launch.hardDeadline)
      else .expire (some sessionId)

/-- What a verdict says about the row it was reached on. -/
def Verdict.Of (launch : Launch) (now : Timestamp) : Verdict → Prop
  | .keep => launch.status.isTerminal = true ∨ now < launch.expiresAt
  | .prolong expiresAt => launch.status.isTerminal = false ∧ launch.expiresAt ≤ now ∧
      now < launch.hardDeadline ∧ now ≤ expiresAt ∧ expiresAt ≤ launch.hardDeadline
  | .expire _ => launch.status.isTerminal = false ∧ launch.expiresAt ≤ now

theorem evaluate_of (settings launch) (now openSession) :
    Verdict.Of launch now (evaluate settings launch now openSession) := by
  unfold evaluate
  split
  · rename_i hterminal
    exact .inl hterminal
  rename_i hlive
  rw [Bool.not_eq_true] at hlive
  split
  · rename_i hearly
    exact .inr hearly
  rename_i hdue
  have hdue : launch.expiresAt ≤ now := Nat.le_of_not_lt hdue
  split
  · exact ⟨hlive, hdue⟩
  dsimp only
  split
  · rename_i hprolong
    refine ⟨hlive, hdue, hprolong.1, ?_, Nat.min_le_right _ _⟩
    exact Nat.le_min.mpr ⟨Nat.le_add_right _ _, Nat.le_of_lt hprolong.1⟩
  · exact ⟨hlive, hdue⟩

theorem evaluate_expire {settings launch now sessions openSession}
    (h : evaluate settings launch now (linkedOpenSession sessions launch) = .expire openSession) :
    openSession = (linkedOpenSession sessions launch).map Prod.fst := by
  unfold evaluate at h
  split at h
  · cases h
  split at h
  · cases h
  split at h
  · rename_i hnone
    cases h
    rw [hnone]
    rfl
  rename_i hsome
  dsimp only at h
  split at h
  · cases h
  · cases h
    rw [hsome]
    rfl

/-- `principal.user.id`: the owner of the authenticated machine. -/
def userId (principal : Principal) : Uuid := principal.machine.ownerUserId

/-- `authorize_report`, and the project check after it. -/
def authorizeReport (principal : Principal) (launch : Launch) : Except HttpError Unit := do
  ensureCanWrite principal "task_launch"
  if launch.machineId ≠ principal.machine.id then throw (forbidden "task_launch" "report")
  ensureProjectAccess principal launch.projectId "read"

/-- The checks of `cancel_launch` and `retry_launch` before the row is
locked: the requester, or an admin. -/
def authorizeRequester (principal : Principal) (launch : Launch) (action : String) :
    Except HttpError Unit := do
  ensureCanWrite principal "task_launch"
  ensureProjectAccess principal launch.projectId "write"
  if principal.role ≠ .admin ∧ launch.requestedByUserId ≠ userId principal then
    throw (forbidden "task_launch" action)

end StudioOS.Launches
