import StudioOS.Admission.Plan

/-!
# Batch — `admit_batch` and `stage_launch`

One call of `admit_batch` in its transaction. A `Session` has the committed
tables and the tables as the transaction sees them; a flush writes the latter,
`commit` and `rollback` make them one, and a request that ends closes its
session, which rolls back what is not committed.
-/

namespace StudioOS.Admission

open Authz Roadmaps Budgets Launches

structure Session where
  committed : Db
  working : Db

/-- A new transaction. -/
def Session.begin (db : Db) : Session := { committed := db, working := db }

def Session.commit (session : Session) : Session := { session with committed := session.working }

def Session.rollback (session : Session) : Session := { session with working := session.committed }

/-- The end of `get_session`. -/
def Session.close (session : Session) : Db := session.rollback.committed

structure Env where
  settings : Settings
  /-- The digest of the canonical payload. -/
  digest : DigestPayload → String
  /-- `resolve_profile_pin`, a read. -/
  resolveProfilePin : Db → Principal → Uuid → TaskLaunchCreate →
    Except HttpError (Option LaunchProfilePin)
  /-- The ids that `uuid4` draws, and the clock, at each item. -/
  launchId : Nat → Uuid
  eventId : Nat → Uuid
  now : Nat → Timestamp
  /-- The start of the transaction, `evaluated_at` and `admitted_at`. -/
  began : Timestamp
  evaluatedAt : Timestamp
  admittedAt : Timestamp

def Db.policy (db : Db) (projectId : Uuid) : Option BudgetPolicy :=
  db.policies.find? (·.projectId = projectId)

def Db.launch (db : Db) (id : Uuid) : Option Launch :=
  (db.launches.find? (·.id = id)).map (·.launch)

/-- The `409` of a budget refusal. -/
def budgetRefused (refusal : BudgetRefusal) : HttpError :=
  { status := 409
    detail := [("error_code", "budget_refused"), ("reason", refusal.reason),
      ("limit", toString refusal.limit), ("consumed", toString refusal.consumed),
      ("held", toString refusal.held), ("requested", toString refusal.requested),
      ("period_start", (refusal.periodStart.map toString).getD "null")] }

/-- `decide_admission`: what `reconcile` has flushed stays flushed when the
admission is refused. -/
def decideAdmission (db : Db) (projectId : Uuid) (now : Timestamp) :
    Db × Except HttpError (Option Admission) :=
  match db.policy projectId with
  | none => (db, .ok none)
  | some policy =>
    let settled := { db with
      reservations := reconcile policy db.reservations db.launch db.ledger now }
    match Budgets.decideAdmission policy settled.reservations settled.launch settled.ledger now with
    | .error refusal => (settled, .error (budgetRefused refusal))
    | .ok admission => (settled, .ok (some admission))

/-- `record_reservation`: one for a launch. -/
def recordReservation (reservations : List Reservation) (projectId launchId : Uuid)
    (began : Timestamp) : Option Admission → List Reservation
  | none => reservations
  | some admission =>
    if reservations.any (·.taskLaunchId = launchId) then reservations
    else reservations ++ [admission.record projectId launchId began]

/-- `_stage_launch_event`. -/
def launchEvent (principal : Principal) (row : LaunchRow) (eventId : Uuid) (now : Timestamp) :
    EventRow :=
  { eventId := eventId
    eventType := "task_launch.requested"
    projectId := row.launch.projectId
    taskId := row.launch.taskId
    machineId := principal.machine.id
    actorType := "user"
    actorId := userId principal
    clientTimestamp := now
    payload :=
      { launchId := row.id
        machineId := row.launch.machineId
        harnessId := row.launch.harnessId
        status := row.launch.status
        previousStatus := ""
        reasonCode := row.launch.reasonCode } }

/-- `stage_event`: an event with the id of another is that other. -/
def stageEvent (db : Db) (event : EventRow) : Db × EventRow :=
  match db.events.find? (·.eventId = event.eventId) with
  | some existing => (db, existing)
  | none => ({ db with events := db.events ++ [event] }, event)

/-- An `IntegrityError` that no handler answers. -/
def integrityError : HttpError := { status := 500, detail := [] }

/-- `stage_launch`, of the `i`-th item: the tables the transaction is left
with, also when it raises. -/
def stageLaunch (env : Env) (principal : Principal) (projectId : Uuid) (i : Nat)
    (launchIn : TaskLaunchCreate) (db : Db) : Db × Except HttpError (LaunchRow × EventRow) :=
  let now := env.now i
  match decideAdmission db projectId now with
  | (db, .error error) => (db, .error error)
  | (db, .ok admission) =>
    match env.resolveProfilePin db principal projectId launchIn with
    | .error error => (db, .error error)
    | .ok pin =>
      let row : LaunchRow :=
        { id := env.launchId i
          launch := Launches.stageLaunch projectId (userId principal) launchIn 1 none none now env.began
          pin := pin }
      if db.launches.any (·.id = row.id) then (db, .error integrityError)
      else
        let db := { db with
          launches := db.launches ++ [row]
          reservations := recordReservation db.reservations projectId row.id env.began admission }
        let (db, event) := stageEvent db (launchEvent principal row (env.eventId i) now)
        (db, .ok (row, event))

/-! ## The batch -/

structure AdmissionBatchItem where
  taskId : Uuid
  machineId : Uuid

structure AdmissionBatchRequest where
  planDigest : String
  harnessId : String
  items : List AdmissionBatchItem
  agentStableKey : Option String
  profileKey : Option String
  expiresIn : Ttl

inductive AdmissionRefusalReason where
  | duplicateItem
  | notLaunchable
  | machineNotEligible
  | budgetRefused

structure AdmissionRefusal where
  taskId : Uuid
  machineId : Uuid
  reason : AdmissionRefusalReason
  exclusionReasons : List AdmissionExclusionReason
  budget : Option (List (String × String))

structure AdmissionBatchResult where
  roadmapId : Uuid
  planDigest : String
  launches : List LaunchRow
  admittedAt : Timestamp

/-- What `admit_batch` raises. -/
inductive AdmissionError where
  | http (error : HttpError)
  /-- `409 admission_plan_changed`, with the fresh plan. -/
  | planChanged (plan : AdmissionDryRun)
  /-- `409 admission_refused`, with every refusal. -/
  | refused (refusals : List AdmissionRefusal)

/-- `launches_service.TaskLaunchCreate(...)` of an item. -/
def launchCreate (body : AdmissionBatchRequest) (item : AdmissionBatchItem) : TaskLaunchCreate :=
  { taskId := item.taskId
    machineId := item.machineId
    harnessId := body.harnessId
    agentStableKey := body.agentStableKey
    profileKey := body.profileKey
    expiresIn := body.expiresIn }

def canLaunch (db : Db) (principal : Principal) (machine : MachineRow) (projectId : Uuid)
    (now : Timestamp) : Bool :=
  if principal.role = .readonly ∨ !hasProjectAccess principal projectId then false
  else if principal.role = .admin ∨ machine.ownerUserId = userId principal then true
  else
    db.grants.any fun grant =>
      grant.machineId = machine.id ∧ grant.userId = userId principal ∧
        grant.projectId.all (· = projectId) ∧ grant.expiresAt.all (now < ·)

/-- The variables of the loop; `working` are the tables of the session. -/
structure Loop where
  working : Db
  freeSlots : Uuid → Nat
  refusals : List AdmissionRefusal
  staged : List (LaunchRow × EventRow)
  seen : List Uuid

def Loop.refuse (loop : Loop) (item : AdmissionBatchItem) (reason : AdmissionRefusalReason)
    (exclusionReasons : List AdmissionExclusionReason) (budget : Option (List (String × String))) :
    Loop :=
  { loop with
    refusals := loop.refusals ++
      [{ taskId := item.taskId
         machineId := item.machineId
         reason := reason
         exclusionReasons := exclusionReasons
         budget := budget }] }

/-- `candidates.get(task_id)`: of several the last. -/
def AdmissionDryRun.candidate (plan : AdmissionDryRun) (taskId : Uuid) :
    Option AdmissionCandidate :=
  plan.launchable.reverse.find? (·.taskId = taskId)

def AdmissionDryRun.exclusion (plan : AdmissionDryRun) (taskId : Uuid) :
    Option AdmissionExclusion :=
  plan.excluded.reverse.find? (·.taskId = taskId)

/-- `free_slots.get(machine_id, 0)`. -/
def AdmissionDryRun.freeSlots (plan : AdmissionDryRun) (machineId : Uuid) : Nat :=
  ((plan.machines.reverse.find? (·.machineId = machineId)).map (·.freeSlots)).getD 0

/-- The `409 budget_refused` that the loop turns into a refusal. -/
def isBudgetRefusal (error : HttpError) : Bool :=
  error.status = 409 && error.detail.lookup "error_code" = some "budget_refused"

/-- The last part of the body: `stage_launch` and its exceptions. -/
def stageItem (env : Env) (principal : Principal) (projectId : Uuid) (body : AdmissionBatchRequest)
    (i : Nat) (item : AdmissionBatchItem) (loop : Loop) : Except (Db × HttpError) Loop :=
  match stageLaunch env principal projectId i (launchCreate body item) loop.working with
  | (working, .ok (launch, event)) =>
    .ok { loop with working := working, staged := loop.staged ++ [(launch, event)] }
  | (working, .error error) =>
    if isBudgetRefusal error then
      .ok (Loop.refuse { loop with working := working } item .budgetRefused [] (some error.detail))
    else .error (working, error)

/-- The body of the loop; an error carries the tables it leaves behind. -/
def admitItem (env : Env) (principal : Principal) (projectId : Uuid) (plan : AdmissionDryRun)
    (body : AdmissionBatchRequest) (i : Nat) (item : AdmissionBatchItem) (loop : Loop) :
    Except (Db × HttpError) Loop :=
  if item.taskId ∈ loop.seen then .ok (loop.refuse item .duplicateItem [] none)
  else
    let loop := { loop with seen := item.taskId :: loop.seen }
    match plan.candidate item.taskId with
    | none =>
      let reasons := ((plan.exclusion item.taskId).map (·.reasons)).getD []
      .ok (loop.refuse item .notLaunchable reasons none)
    | some candidate =>
      if item.machineId ∉ candidate.machineIds ∨ loop.freeSlots item.machineId = 0 then
        .ok (loop.refuse item .machineNotEligible [] none)
      else
        let loop := { loop with
          freeSlots := Function.update loop.freeSlots item.machineId
            (loop.freeSlots item.machineId - 1) }
        match loop.working.machines.find? (·.id = item.machineId) with
        | none => .ok (loop.refuse item .machineNotEligible [] none)
        | some machine =>
          if canLaunch loop.working principal machine projectId (env.now i) then
            stageItem env principal projectId body i item loop
          else .ok (loop.refuse item .machineNotEligible [] none)

/-- The loop, from the `i`-th item on. -/
def admitItems (env : Env) (principal : Principal) (projectId : Uuid) (plan : AdmissionDryRun)
    (body : AdmissionBatchRequest) : Nat → List AdmissionBatchItem → Loop →
    Except (Db × HttpError) Loop
  | _, [], loop => .ok loop
  | i, item :: rest, loop =>
    (admitItem env principal projectId plan body i item loop).bind
      (admitItems env principal projectId plan body (i + 1) rest)

def authorizeAdmit (db : Db) (principal : Principal) (roadmapId : Uuid) :
    Except HttpError RoadmapTree := do
  let roadmap ← ensureRoadmapAccess db principal roadmapId "write"
  ensureCanWrite principal "task_launch"
  return roadmap

/-- The loop and what follows it, on an unchanged plan. -/
def admitPlan (env : Env) (session : Session) (principal : Principal) (roadmap : RoadmapTree)
    (body : AdmissionBatchRequest) (plan : AdmissionDryRun) :
    Session × Except AdmissionError AdmissionBatchResult :=
  let start : Loop :=
    { working := session.working, freeSlots := plan.freeSlots, refusals := [], staged := [], seen := [] }
  match admitItems env principal roadmap.projectId plan body 0 body.items start with
  | .error (working, error) => ({ session with working := working }, .error (.http error))
  | .ok loop =>
    let session := { session with working := loop.working }
    if loop.refusals ≠ [] then (session.rollback, .error (.refused loop.refusals))
    else
      (session.commit, .ok
        { roadmapId := roadmap.id
          planDigest := plan.planDigest
          launches := loop.staged.map (·.1)
          admittedAt := env.admittedAt })

def admitBatch (env : Env) (session : Session) (principal : Principal) (roadmapId : Uuid)
    (body : AdmissionBatchRequest) : Session × Except AdmissionError AdmissionBatchResult :=
  match authorizeAdmit session.working principal roadmapId with
  | .error error => (session, .error (.http error))
  | .ok roadmap =>
    match dryRun env.digest session.working principal roadmapId (some body.harnessId) env.settings
      env.evaluatedAt with
    | .error error => (session, .error (.http error))
    | .ok plan =>
      if plan.planDigest ≠ body.planDigest then (session, .error (.planChanged plan))
      else admitPlan env session principal roadmap body plan

end StudioOS.Admission
