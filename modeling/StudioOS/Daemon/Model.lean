import StudioOS.Launch.Model
import StudioOS.Library.Runs

/-!
# Daemon — Model

The machine's side of a task launch. The heartbeat pulls the pending launches (`LaunchPuller`),
decides each new one through the local policy, replays the outbox and submits what it accepted to
the `LaunchExecutor`. Every status goes to the server through `LaunchReporter` and the outbox, which
outlives the process; the decisions, the counts and the tasks do not.
-/

namespace StudioOS.Daemon

open Launches (TaskLaunchStatus TaskLaunchReasonCode TaskLaunchActor allowedTransitions)

def launchPollMax : Nat := 20

/-- `TaskLaunch`, as far as the daemon and its pull read it. -/
structure TaskLaunch where
  id : Uuid
  projectId : Uuid
  harnessId : String
  profileKey : Option String
  status : TaskLaunchStatus
  version : Nat

/-- `OWNED_STATUSES`; the same are `_ISSUABLE_STATUSES` of the server. -/
def ownedStatuses : List TaskLaunchStatus := [.accepted, .preparing, .running]

/-- `TERMINAL_STATUSES` of the executor: what it stops a launch for. -/
def stopStatuses : List TaskLaunchStatus := [.cancelled, .expired]

/-- A queued report: its launch and its `TaskLaunchMachineReport`. -/
structure LaunchReport where
  launchId : Uuid
  expectedVersion : Nat
  status : TaskLaunchStatus
  reasonCode : TaskLaunchReasonCode
deriving DecidableEq

/-- The launches that target the machine, by `created_at` and id, and
what the last heartbeat of the machine advertised. -/
structure Server where
  rows : List TaskLaunch
  launchSafety : Bool
  launchProfiles : Bool

def Server.get? (server : Server) (id : Uuid) : Option TaskLaunch :=
  server.rows.find? fun row => row.id = id

/-- The row with another status, and the next version. -/
def TaskLaunch.moved (launch : TaskLaunch) (status : TaskLaunchStatus) : TaskLaunch :=
  { launch with status := status, version := launch.version + 1 }

/-- A change of status of one row. -/
def Server.move (server : Server) (id : Uuid) (status : TaskLaunchStatus) : Server :=
  { server with rows := server.rows.map fun row => if row.id = id then row.moved status else row }

/-- `report_launch`: the status it commits, if it does not refuse. -/
def Server.report (server : Server) (report : LaunchReport) : Except String Server :=
  match server.get? report.launchId with
  | none => .error "task launch not found"
  | some launch =>
    if launch.version ≠ report.expectedVersion then .error "version_conflict"
    else
      match allowedTransitions launch.status report.status with
      | none => .error "invalid_launch_transition"
      | some actor =>
        if actor ≠ .machine then .error "forbidden"
        else .ok (server.move report.launchId report.status)

/-- `cancel_launch` and the expiry of a launch: any status that is not
terminal. -/
def Server.close (server : Server) (id : Uuid) (status : TaskLaunchStatus) : Option Server :=
  match server.get? id with
  | none => none
  | some launch => if launch.status.isTerminal then none else some (server.move id status)

/-- Whether `issue_credential` grants one. -/
def Server.issues (server : Server) (id : Uuid) : Bool :=
  (server.get? id).any fun launch => launch.status ∈ ownedStatuses

/-- `pull_pending`: the oldest launches that are not terminal, of which
the overdue ones expire and those the machine cannot run are withheld. -/
def Server.pull (server : Server) (overdue : List Uuid) : Server × List TaskLaunch :=
  let live := server.rows.filter fun row => !row.status.isTerminal
  let page := (live.take (launchPollMax + 1)).map TaskLaunch.id
  let expired := (page.filter fun id => id ∈ overdue).foldl
    (fun server id => server.move id .expired) server
  let launches := expired.rows.filter fun row =>
    decide (row.id ∈ page) && !row.status.isTerminal && server.launchSafety &&
      (server.launchProfiles || row.profileKey.isNone)
  (expired, launches.take launchPollMax)

structure LaunchPolicy where
  optIn : Bool
  projectIds : List Uuid
  allowedHarnesses : List String
  detectedHarnesses : List String
  maxConcurrent : Nat

def LaunchPolicy.evaluate (policy : LaunchPolicy) (launch : TaskLaunch) (active : Nat) :
    TaskLaunchReasonCode :=
  if !policy.optIn then .notOptedIn
  else if launch.projectId ∉ policy.projectIds then .projectNotRegistered
  else if launch.harnessId ∉ policy.allowedHarnesses then .harnessNotAllowed
  else if launch.harnessId ∉ policy.detectedHarnesses then .harnessNotFound
  else if active ≥ policy.maxConcurrent then .capacityReached
  else .none

/-- The outbox rows of the reports, in their order. -/
abbrev Outbox := List LaunchReport

/-- Two reports have the same idempotency key. -/
def LaunchReport.sameKey (a b : LaunchReport) : Bool :=
  a.launchId = b.launchId && a.expectedVersion = b.expectedVersion

/-- `enqueue_mutation`: `INSERT OR IGNORE`. -/
def enqueueMutation (outbox : Outbox) (report : LaunchReport) : Outbox :=
  if outbox.any report.sameKey then outbox else outbox ++ [report]

/-- `LaunchReporter`: the store, and the reports of this process. -/
structure LaunchReporter where
  store : Outbox
  sent : Uuid → Nat

def LaunchReporter.expectedVersion (reporter : LaunchReporter) (launch : TaskLaunch) : Nat :=
  launch.version + reporter.sent launch.id

def LaunchReporter.report (reporter : LaunchReporter) (launch : TaskLaunch)
    (status : TaskLaunchStatus) (reasonCode : TaskLaunchReasonCode) : LaunchReporter :=
  { store := enqueueMutation reporter.store
      { launchId := launch.id
        expectedVersion := reporter.expectedVersion launch
        status := status
        reasonCode := reasonCode }
    sent := Function.update reporter.sent launch.id (reporter.sent launch.id + 1) }

structure LaunchPuller where
  decided : Uuid → Option TaskLaunchStatus
  reconciled : Bool

/-- The variables of `poll` after its pull. -/
structure Pass where
  reporter : LaunchReporter
  decided : Uuid → Option TaskLaunchStatus
  active : Nat
  accepted : List TaskLaunch

/-- What a pass records of a launch. -/
def Pass.answer (pass : Pass) (launch : TaskLaunch) (status : TaskLaunchStatus)
    (reasonCode : TaskLaunchReasonCode) : Pass :=
  { pass with
    reporter := pass.reporter.report launch status reasonCode
    decided := Function.update pass.decided launch.id (some status) }

/-- The body of the loop of `_fail_orphans`. -/
def Pass.failOrphan (isExecuting : Uuid → Bool) (pass : Pass) (launch : TaskLaunch) : Pass :=
  if launch.status ∉ ownedStatuses || isExecuting launch.id then pass
  else pass.answer launch .failed .harnessExited

/-- Whether a pulled launch counts as active. -/
def countsActive (decided : Uuid → Option TaskLaunchStatus) (launch : TaskLaunch) : Bool :=
  (launch.status ∈ ownedStatuses && (decided launch.id).isNone) ||
    decided launch.id = some .accepted

/-- The body of the loop of `poll`. -/
def Pass.offer (policy : LaunchPolicy) (pass : Pass) (launch : TaskLaunch) : Pass :=
  if launch.status ≠ .requested || (pass.decided launch.id).isSome then pass
  else
    let reason := policy.evaluate launch pass.active
    if reason = .none then
      let answered := pass.answer launch .accepted reason
      { answered with active := pass.active + 1, accepted := pass.accepted ++ [launch] }
    else pass.answer launch .rejected reason

/-- The decisions of launches that are no longer pending are forgotten. -/
def LaunchPuller.prune (puller : LaunchPuller) (pending : List TaskLaunch) :
    Uuid → Option TaskLaunchStatus :=
  fun id => if pending.any fun launch => launch.id = id then puller.decided id else none

/-- `poll` up to its loop. -/
def LaunchPuller.opened (puller : LaunchPuller) (reporter : LaunchReporter)
    (isExecuting : Uuid → Bool) (pending : List TaskLaunch) : Pass :=
  let pass : Pass :=
    { reporter := reporter, decided := puller.prune pending, active := 0, accepted := [] }
  let checked :=
    if puller.reconciled then pass else pending.foldl (Pass.failOrphan isExecuting) pass
  { checked with active := pending.countP (countsActive checked.decided) }

/-- `poll`, once the pull answered. -/
def LaunchPuller.poll (puller : LaunchPuller) (reporter : LaunchReporter)
    (isExecuting : Uuid → Bool) (policy : LaunchPolicy) (pending : List TaskLaunch) : Pass :=
  pending.foldl (Pass.offer policy) (puller.opened reporter isExecuting pending)

/-- What `_run` waits for. -/
inductive Phase where
  /-- The resolver. -/
  | resolving
  /-- The status check before the preparation. -/
  | checking
  /-- The preparation of the worktree; `preparing` is reported. -/
  | preparing
  /-- The status check after it. -/
  | rechecking
  /-- The snapshot, and the agent of the launch. -/
  | readying
  /-- The answer of `issue_launch_credential`. -/
  | issuing
  /-- Nothing more before the harness starts: the credential was issued. -/
  | issued
  /-- The harness; `running` is reported. -/
  | waiting
  /-- The task was cancelled. -/
  | unwinding

structure Task where
  launch : TaskLaunch
  phase : Phase

/-- How what a task waits for ends. -/
inductive Outcome where
  /-- As the code goes on from. -/
  | done
  /-- The status check fails, and counts as no stop. -/
  | blind
  /-- With a refusal or an error, which is reported. -/
  | error (reasonCode : TaskLaunchReasonCode)
  /-- The harness ended with success, or without. -/
  | result (status : TaskLaunchStatus) (reasonCode : TaskLaunchReasonCode)

/-- Where the heartbeat is in its round. -/
inductive Heartbeat where
  | idle
  /-- The pull was answered at the server. -/
  | pulled (pending : List TaskLaunch)
  /-- The pass accepted launches, and the outbox is replayed. -/
  | accepted (launches : List TaskLaunch)

/-- A process of the daemon. `alive` are the harnesses it started that
have not exited. -/
structure Process where
  puller : LaunchPuller
  sent : Uuid → Nat
  heartbeat : Heartbeat
  tasks : List Task
  stopped : List Uuid
  alive : List Uuid

def Process.fresh : Process :=
  { puller := { decided := fun _ => none, reconciled := false }
    sent := fun _ => 0
    heartbeat := .idle
    tasks := []
    stopped := []
    alive := [] }

def Process.task? (process : Process) (id : Uuid) : Option Task :=
  process.tasks.find? fun task => task.launch.id = id

def Process.owns (process : Process) (id : Uuid) : Bool := (process.task? id).isSome

def Process.setPhase (process : Process) (id : Uuid) (phase : Phase) : Process :=
  { process with
    tasks := process.tasks.map fun task =>
      if task.launch.id = id then { task with phase := phase } else task }

/-- The `finally` of `_run`. -/
def Process.dropTask (process : Process) (id : Uuid) : Process :=
  { process with tasks := process.tasks.filter fun task => task.launch.id ≠ id }

def Process.submit (process : Process) (launch : TaskLaunch) : Process :=
  if process.owns launch.id || launch.id ∈ process.stopped then process
  else { process with tasks := process.tasks ++ [{ launch := launch, phase := .resolving }] }

/-- `LaunchExecutor._stop`: the harness is killed and the task cancelled. -/
def Process.stop (process : Process) (id : Uuid) : Process :=
  let cancelled := process.setPhase id .unwinding
  { cancelled with stopped := id :: process.stopped }

/-! ## The machine and its server -/

/-- The server, the outbox and the running process, if there is one, and
the launches whose harness was started, in any process. -/
structure State where
  server : Server
  outbox : Outbox
  process : Option Process
  started : List Uuid

/-- How a request of the outbox ends. -/
inductive Delivery where
  /-- The server answers, and the row leaves the queue. -/
  | answered
  /-- The server handles it, and the answer is lost. -/
  | lost
  /-- The row is dead-lettered without reaching `report_launch`. -/
  | refused
deriving DecidableEq

inductive Act where
  /-- A launch commits; its `created_at` gives it its place. -/
  | create (id projectId : Uuid) (harnessId : String) (profileKey : Option String) (place : Nat)
  | cancel (id : Uuid)
  | expire (id : Uuid)
  | advertise (launchSafety launchProfiles : Bool)
  | boot
  | crash
  | pull (overdue : List Uuid)
  | decide (policy : LaunchPolicy)
  | submit
  | send (id : Uuid) (expectedVersion : Nat) (delivery : Delivery)
  | run (id : Uuid) (outcome : Outcome)
  | observe (id : Uuid)
  | exit (id : Uuid)

def State.reported (s : State) (process : Process) (reporter : LaunchReporter) : State :=
  { s with outbox := reporter.store, process := some { process with sent := reporter.sent } }

def State.reporter (s : State) (process : Process) : LaunchReporter :=
  { store := s.outbox, sent := process.sent }

/-- A task reports and goes on, or ends. -/
def State.runReport (s : State) (process : Process) (launch : TaskLaunch)
    (status : TaskLaunchStatus) (reasonCode : TaskLaunchReasonCode) : State :=
  s.reported process ((s.reporter process).report launch status reasonCode)

/-- The launch is cancelled or expired on the server. -/
def Server.stops (server : Server) (id : Uuid) : Bool :=
  (server.get? id).any fun launch => launch.status ∈ stopStatuses

/-- A status check of `_run` that answers: the task ends, or goes on. -/
def State.check (s : State) (process : Process) (id : Uuid) (next : State) : State :=
  if id ∈ process.stopped then { s with process := some (process.dropTask id) }
  else if s.server.stops id then
    let ended := process.dropTask id
    { s with process := some { ended with stopped := id :: process.stopped } }
  else next

/-- `_run`, from one await to the next. -/
def State.runTask (s : State) (process : Process) (task : Task) (outcome : Outcome) :
    Option State :=
  let launch := task.launch
  let id := launch.id
  let goOn (phase : Phase) : State := { s with process := some (process.setPhase id phase) }
  let prepare := s.runReport (process.setPhase id .preparing) launch .preparing .none
  match task.phase, outcome with
  | .unwinding, _ => some { s with process := some (process.dropTask id) }
  | _, .error reasonCode => some (s.runReport (process.dropTask id) launch .failed reasonCode)
  | .resolving, .done => some (goOn .checking)
  | .checking, .done => some (s.check process id prepare)
  | .checking, .blind => some prepare
  | .preparing, .done => some (goOn .rechecking)
  | .rechecking, .done => some (s.check process id (goOn .readying))
  | .rechecking, .blind => some (goOn .readying)
  | .readying, .done => some (goOn .issuing)
  | .issuing, .done => if s.server.issues id then some (goOn .issued) else none
  | .issued, .done =>
    -- `running` is reported, and the harness starts
    let reported := s.runReport (process.setPhase id .waiting) launch .running .none
    some
      { reported with
        process := reported.process.map fun p => { p with alive := id :: p.alive }
        started := id :: s.started }
  | .issued, .result .failed reasonCode =>
    -- `running` is reported, and the harness does not start
    let reporter := (s.reporter process).report launch .running .none
    some (s.reported (process.dropTask id) (reporter.report launch .failed reasonCode))
  | .waiting, .result status reasonCode =>
    if status = .succeeded || status = .failed then
      if id ∈ process.stopped then some { s with process := some (process.dropTask id) }
      else some (s.runReport (process.dropTask id) launch status reasonCode)
    else none
  | _, _ => none

def step (s : State) : Act → Option State
  | .create id projectId harnessId profileKey place =>
    if (s.server.get? id).isSome then none
    else
      let row : TaskLaunch :=
        { id := id, projectId := projectId, harnessId := harnessId, profileKey := profileKey,
          status := .requested, version := 1 }
      let rows := s.server.rows.take place ++ row :: s.server.rows.drop place
      some { s with server := { s.server with rows := rows } }
  | .cancel id => (s.server.close id .cancelled).map fun server => { s with server := server }
  | .expire id => (s.server.close id .expired).map fun server => { s with server := server }
  | .advertise launchSafety launchProfiles =>
    some
      { s with
        server :=
          { s.server with launchSafety := launchSafety, launchProfiles := launchProfiles } }
  | .boot => if s.process.isSome then none else some { s with process := some .fresh }
  | .crash => if s.process.isSome then some { s with process := none } else none
  | .pull overdue =>
    match s.process with
    | none => none
    | some process =>
      match process.heartbeat with
      | .idle =>
        let pulled := s.server.pull overdue
        some
          { s with
            server := pulled.1
            process := some { process with heartbeat := .pulled pulled.2 } }
      | _ => none
  | .decide policy =>
    match s.process with
    | none => none
    | some process =>
      match process.heartbeat with
      | .pulled pending =>
        let pass := process.puller.poll (s.reporter process) process.owns policy pending
        let decided : Process :=
          { process with
            puller := { decided := pass.decided, reconciled := true }
            heartbeat := .accepted pass.accepted }
        some (s.reported decided pass.reporter)
      | _ => none
  | .submit =>
    match s.process with
    | none => none
    | some process =>
      match process.heartbeat with
      | .accepted launches =>
        let submitted := launches.foldl Process.submit process
        some { s with process := some { submitted with heartbeat := .idle } }
      | _ => none
  | .send id expectedVersion delivery =>
    match s.outbox.find? fun r => r.launchId = id && r.expectedVersion = expectedVersion with
    | none => none
    | some report =>
      let server :=
        if delivery = .refused then s.server
        else
          match s.server.report report with
          | .ok server => server
          | .error _ => s.server
      let outbox :=
        if delivery = .lost then s.outbox
        else s.outbox.filter fun r => !report.sameKey r
      some { s with server := server, outbox := outbox }
  | .run id outcome =>
    match s.process with
    | none => none
    | some process =>
      match process.task? id with
      | none => none
      | some task => s.runTask process task outcome
  | .observe id =>
    match s.process with
    | none => none
    | some process =>
      if process.owns id && id ∉ process.stopped && s.server.stops id then
        some { s with process := some (process.stop id) }
      else none
  | .exit id =>
    match s.process with
    | none => none
    | some process =>
      if id ∈ process.alive then
        some { s with process := some { process with alive := process.alive.erase id } }
      else none

end StudioOS.Daemon
