import StudioOS.Launch.Model
import StudioOS.Library.Runs

/-!
# Launch — System

The tables under concurrent callers. A caller is one service call on one launch; `list_launches`,
`pull_pending` and `expire_overdue_launches` are one for each row they load. A step is what happens
between two statements of a caller: a row it read, a reading of the clock, a decision, a flush with
its commit.
-/

namespace StudioOS.Launches

open Authz Runs

abbrev CallerId := Nat

/-- The service a caller is in. -/
inductive Op where
  /-- `get_launch`, `list_launches`, `pull_pending`,
  `expire_overdue_launches`. -/
  | view
  | report (principal : Principal) (report : TaskLaunchMachineReport)
  | cancel (principal : Principal) (cancel : TaskLaunchCancel)
  | retry (principal : Principal) (retry : TaskLaunchRetry)
  /-- `link_session_to_launch`. -/
  | link (sessionId : Uuid)

def Op.persistExtension : Op → Bool
  | .view | .retry .. => true
  | _ => false

inductive Phase where
  | start
  /-- Authorized, before `refresh(with_for_update=True)`. -/
  | authorized
  /-- `expire_launch_if_overdue` begins with this row. -/
  | loaded (row : Launch)
  | timed (row : Launch) (now : Timestamp)
  | decided (row : Launch) (now : Timestamp) (verdict : Verdict)
  /-- The evaluation has committed, the row is to be read again. -/
  | committed
  /-- `report_launch`, `cancel_launch` past the evaluation: the row as
  loaded and as assigned so far. -/
  | checking (locked : Bool) (row assigned : Launch)
  /-- `retry_launch` past its second `refresh`. -/
  | relocked (row : Launch)
  /-- `retry_launch` past `existing_retry` and the terminal check. -/
  | creating (row : Launch)
  | linking (row : Launch)
  | done (result : Except HttpError Uuid)

/-- `began` is the start of the caller's transaction. -/
structure Caller where
  launchId : Uuid
  op : Op
  phase : Phase
  began : Timestamp

/-- The tables, the row locks and the callers. `retryIndex` is
`uq_task_launches_retry_of`: the attempt that retries a launch. -/
structure State where
  clock : Timestamp
  launches : Uuid → Option Launch
  retryIndex : Uuid → Option Uuid
  sessions : Uuid → Option WorkSession
  claims : Uuid → Option ResourceClaim
  locks : Uuid → Option CallerId
  callers : CallerId → Option Caller

def State.initial : State :=
  { clock := 0
    launches := fun _ => none
    retryIndex := fun _ => none
    sessions := fun _ => none
    claims := fun _ => none
    locks := fun _ => none
    callers := fun _ => none }

def State.setPhase (s : State) (c : CallerId) (k : Caller) (phase : Phase) : State :=
  { s with callers := Function.update s.callers c (some { k with phase := phase }) }

/-- The caller's transaction ends, and with it the row lock it holds. -/
def State.unlock (s : State) (c : CallerId) (k : Caller) : State :=
  if s.locks k.launchId = some c then
    { s with locks := Function.update s.locks k.launchId none }
  else s

/-- The call returns or raises. -/
def State.finish (s : State) (c : CallerId) (k : Caller) (result : Except HttpError Uuid) : State :=
  (s.unlock c k).setPhase c k (.done result)

/-- The next transaction of the caller begins. -/
def State.nextTransaction (s : State) (c : CallerId) (k : Caller) (phase : Phase) : State :=
  (s.unlock c k).setPhase c { k with began := s.clock } phase

/-- The flush of a launch. It waits for the row lock of another. -/
def State.write (s : State) (c : CallerId) (k : Caller) (row assigned : Launch) : Option State :=
  match s.launches k.launchId with
  | none => none
  | some current =>
    if s.locks k.launchId = none ∨ s.locks k.launchId = some c then
      some { s with
        launches := Function.update s.launches k.launchId
          (some (row.flush assigned current k.began)) }
    else none

/-- `refresh(with_for_update=True)`. It waits for the row lock. -/
def State.lock (s : State) (c : CallerId) (k : Caller) (phase : Launch → Phase) : Option State :=
  match s.launches k.launchId with
  | none => none
  | some row =>
    if s.locks k.launchId = none then
      some (State.setPhase
        { s with locks := Function.update s.locks k.launchId (some c) } c k (phase row))
    else none

/-- `close_session_server_side`. -/
def WorkSession.close (workSession : WorkSession) (now : Timestamp) : WorkSession :=
  { workSession with endedAt := some now, lastActivityAt := some now }

/-- `release_claim_server_side`, on the claims
`_release_claims_of_expired_launch` selects. -/
def ResourceClaim.releaseOf (claim : ResourceClaim) (launch : Launch) (now : Timestamp) :
    ResourceClaim :=
  if claim.taskId = some launch.taskId ∧ claim.status = .active ∧
      claim.claimedByMachineId = launch.machineId then
    { claim with status := .released, releasedAt := some now }
  else claim

/-- What an expiry does beside the launch, in the same transaction. -/
def State.handOff (s : State) (row : Launch) (openSession : Option Uuid) : State :=
  { s with
    sessions :=
      match openSession with
      | none => s.sessions
      | some sessionId =>
        Function.update s.sessions sessionId ((s.sessions sessionId).map (·.close s.clock))
    claims := fun id => (s.claims id).map (·.releaseOf row s.clock) }

/-! ## The services -/

def notFound : HttpError := { status := 404, detail := [("detail", "task launch not found")] }

def conflict (code : String) (more : List (String × String)) : HttpError :=
  { status := 409, detail := ("error_code", code) :: more }

/-- The caller may go on to the lock, or is refused. -/
def State.gate (s : State) (c : CallerId) (k : Caller) : Except HttpError Unit → State
  | .ok () => s.setPhase c k .authorized
  | .error e => s.finish c k (.error e)

/-- The first read of the launch, and the checks before it is locked. -/
def State.firstRead (s : State) (c : CallerId) (k : Caller) : State :=
  match s.launches k.launchId with
  | none => s.finish c k (.error notFound)
  | some row =>
    match k.op with
    | .view => s.setPhase c k (.loaded row)
    | .report principal _ => s.gate c k (authorizeReport principal row)
    | .cancel principal _ => s.gate c k (authorizeRequester principal row "cancel")
    | .retry principal _ => s.gate c k (authorizeRequester principal row "retry")
    | .link sessionId =>
      match s.sessions sessionId with
      | none => s.finish c k (.ok k.launchId)
      | some workSession =>
        if row.sessionId = none ∧ workSession.machineId = some row.machineId ∧
            workSession.taskId = some row.taskId ∧ row.status ∈ linkableStatuses then
          s.setPhase c k (.linking row)
        else s.finish c k (.ok k.launchId)

/-- Past an evaluation that wrote nothing. -/
def Caller.kept (k : Caller) (row assigned : Launch) : Phase :=
  match k.op with
  | .retry .. => .relocked row
  | .report .. | .cancel .. => .checking true row assigned
  | .view | .link _ => .done (.ok k.launchId)

/-- Past an evaluation that committed. -/
def Caller.evaluated (k : Caller) : Phase :=
  match k.op with
  | .retry .. | .report .. | .cancel .. => .committed
  | .view | .link _ => .done (.ok k.launchId)

/-- The writes of `expire_launch_if_overdue`. -/
def State.settle (s : State) (c : CallerId) (k : Caller) (row : Launch) (now : Timestamp) :
    Verdict → Option State
  | .keep => some (s.setPhase c k (k.kept row row))
  | .prolong expiresAt =>
    if k.op.persistExtension then
      (s.write c k row (row.prolonged expiresAt)).map (·.nextTransaction c k k.evaluated)
    else some (s.setPhase c k (k.kept row (row.prolonged expiresAt)))
  | .expire openSession =>
    (s.write c k row (row.expired now)).map fun t =>
      (t.handOff row openSession).nextTransaction c k k.evaluated

/-- The session a report names may be linked. -/
def reportedSessionOk (sessions : Uuid → Option WorkSession) (launch : Launch)
    (sessionId : Option Uuid) : Bool :=
  match sessionId with
  | none => true
  | some id =>
    match sessions id with
    | none => false
    | some linked =>
      linked.machineId = some launch.machineId ∧ linked.taskId = some launch.taskId ∧
        linked.endedAt = none

/-- The checks of `report_launch` past the evaluation. -/
def checkReport (sessions : Uuid → Option WorkSession) (launch : Launch)
    (report : TaskLaunchMachineReport) : Except HttpError Unit :=
  if (launch.version : Int) ≠ report.expectedVersion then
    .error (conflict "version_conflict" [("server_version", toString launch.version)])
  else
    match allowedTransitions launch.status report.status with
    | none => .error (conflict "invalid_launch_transition" [])
    | some actor =>
      if actor ≠ .machine then .error (forbidden "task_launch" "report")
      else if reportedSessionOk sessions launch report.sessionId = false then
        .error (conflict "invalid_launch_session" [])
      else .ok ()

/-- The checks of `cancel_launch` past the evaluation. -/
def checkCancel (launch : Launch) (cancel : TaskLaunchCancel) : Except HttpError Unit :=
  if (launch.version : Int) ≠ cancel.expectedVersion then
    .error (conflict "version_conflict" [("server_version", toString launch.version)])
  else
    match allowedTransitions launch.status .cancelled with
    | none => .error (conflict "invalid_launch_transition" [])
    | some actor =>
      if actor ≠ .requester then .error (forbidden "task_launch" "cancel") else .ok ()

/-- `report_launch` and `cancel_launch` past the evaluation. -/
def State.conclude (s : State) (c : CallerId) (k : Caller) (row assigned : Launch) : Option State :=
  match k.op with
  | .report _ report =>
    match checkReport s.sessions assigned report with
    | .error e => some (s.finish c k (.error e))
    | .ok () =>
      (s.write c k row (assigned.reported report s.clock)).map (·.finish c k (.ok k.launchId))
  | .cancel _ cancel =>
    match checkCancel assigned cancel with
    | .error e => some (s.finish c k (.error e))
    | .ok () =>
      (s.write c k row (assigned.cancelled s.clock)).map (·.finish c k (.ok k.launchId))
  | _ => none

/-- The evaluation committed: `report_launch` and `cancel_launch` read the
row again without a lock, `retry_launch` takes the lock again. -/
def State.reread (s : State) (c : CallerId) (k : Caller) : Option State :=
  match k.op with
  | .retry .. => s.lock c k .relocked
  | _ => (s.launches k.launchId).map fun row => s.setPhase c k (.checking false row row)

/-- A retry that found an existing one: only the same accepted preview
converges with a replay. -/
def existingRetry (s : State) (existing : Uuid) (retry : TaskLaunchRetry) : Except HttpError Uuid :=
  match retry.replay with
  | none => .ok existing
  | some digest =>
    if (s.launches existing).bind Launch.replayDigest = some digest then .ok existing
    else .error (conflict "replay_refused" [("codes", "already_retried")])

/-- `retry_launch` up to the creation. -/
def State.decideRetry (s : State) (c : CallerId) (k : Caller) (row : Launch) : Option State :=
  match k.op with
  | .retry _ retry =>
    match s.retryIndex k.launchId with
    | some existing => some (s.finish c k (existingRetry s existing retry))
    | none =>
      if row.status.isTerminal then some (s.setPhase c k (.creating row))
      else
        some (s.finish c k
          (.error (conflict "launch_not_terminal" [("status", row.status.value)])))
  | _ => none

/-- The next step of a caller, up to the creation of a retry. -/
def State.advance (settings : Settings) (s : State) (c : CallerId) (k : Caller) : Option State :=
  match k.phase with
  | .start => some (s.firstRead c k)
  | .authorized => s.lock c k .loaded
  | .loaded row => some (s.setPhase c k (.timed row s.clock))
  | .timed row now =>
    some (s.setPhase c k
      (.decided row now (evaluate settings row now (linkedOpenSession s.sessions row))))
  | .decided row now verdict => s.settle c k row now verdict
  | .committed => s.reread c k
  | .checking _ row assigned => s.conclude c k row assigned
  | .relocked row => s.decideRetry c k row
  | .linking row =>
    match k.op with
    | .link sessionId =>
      (s.write c k row (row.linked sessionId)).map (·.finish c k (.ok k.launchId))
    | _ => none
  | .creating _ | .done _ => none

/-- The creation of a retry: a fresh id, and a place in the unique
index. -/
def State.createRetry (s : State) (c : CallerId) (k : Caller) (newId : Uuid) : Option State :=
  match k.op, k.phase with
  | .retry principal retry, .creating row =>
    if s.launches newId = none ∧ s.retryIndex k.launchId = none then
      some (State.finish
        { s with
          launches := Function.update s.launches newId
            (some (stageLaunch row.projectId (userId principal) (row.retryOf retry)
              (row.attempt + 1) (some k.launchId) retry.replay s.clock k.began))
          retryIndex := Function.update s.retryIndex k.launchId (some newId) }
        c k (.ok newId))
    else none
  | _, _ => none

/-- `authorize_create`, the admission or `confirm_replay` refuses it. -/
def State.refuseRetry (s : State) (c : CallerId) (k : Caller) (e : HttpError) : Option State :=
  match k.phase with
  | .creating _ => some (s.finish c k (.error e))
  | _ => none

/-- The steps: those of callers, plain creations, and what the rest of
Studio does to sessions and claims. -/
inductive Act where
  | tick (elapsed : Nat)
  | call (c : CallerId) (launchId : Uuid) (op : Op)
  | advance (c : CallerId)
  | createRetry (c : CallerId) (newId : Uuid)
  | refuseRetry (c : CallerId) (e : HttpError)
  /-- `create_launch`, whose transaction started at `began`. -/
  | create (launchId projectId requestedByUserId : Uuid) (launchIn : TaskLaunchCreate)
      (began : Timestamp)
  | startSession (sessionId : Uuid) (machineId taskId : Option Uuid)
  | touchSession (sessionId : Uuid)
  | endSession (sessionId : Uuid)
  | claim (claimId : Uuid) (taskId : Option Uuid) (machineId : Uuid)
  | releaseClaim (claimId : Uuid)

def step (settings : Settings) (s : State) : Act → Option State
  | .tick elapsed => some { s with clock := s.clock + elapsed }
  | .call c launchId op =>
    match s.callers c with
    | none =>
      some { s with
        callers := Function.update s.callers c
          (some { launchId := launchId, op := op, phase := .start, began := s.clock }) }
    | some _ => none
  | .advance c => (s.callers c).bind fun k => s.advance settings c k
  | .createRetry c newId => (s.callers c).bind fun k => s.createRetry c k newId
  | .refuseRetry c e => (s.callers c).bind fun k => s.refuseRetry c k e
  | .create launchId projectId requestedByUserId launchIn began =>
    if s.launches launchId = none ∧ began ≤ s.clock then
      some { s with
        launches := Function.update s.launches launchId
          (some (stageLaunch projectId requestedByUserId launchIn 1 none none s.clock began)) }
    else none
  | .startSession sessionId machineId taskId =>
    if (s.sessions sessionId).isNone then
      some { s with
        sessions := Function.update s.sessions sessionId
          (some { machineId := machineId, taskId := taskId, startedAt := s.clock
                  lastActivityAt := some s.clock, endedAt := none }) }
    else none
  | .touchSession sessionId =>
    some { s with
      sessions := Function.update s.sessions sessionId
        ((s.sessions sessionId).map fun w => { w with lastActivityAt := some s.clock }) }
  | .endSession sessionId =>
    some { s with
      sessions := Function.update s.sessions sessionId
        ((s.sessions sessionId).map (·.close s.clock)) }
  | .claim claimId taskId machineId =>
    if (s.claims claimId).isNone then
      some { s with
        claims := Function.update s.claims claimId
          (some { taskId := taskId, claimedByMachineId := machineId, status := .active
                  releasedAt := none }) }
    else none
  | .releaseClaim claimId =>
    some { s with
      claims := Function.update s.claims claimId
        ((s.claims claimId).map fun r =>
          { r with status := .released, releasedAt := some s.clock }) }

end StudioOS.Launches
