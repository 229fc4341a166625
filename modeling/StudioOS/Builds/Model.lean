import StudioOS.Authz
import StudioOS.Library.Ranked

/-!
# Builds — Model

The build rows of one project and their events. A webhook delivery and a pass of `reconcile_builds`
are workers with a list of workflow runs: each run is normalised, upserted in one statement and
committed, and then its event is created. `create_event` looks for the event first and inserts it
later, so the insert may fail, which ends the worker.

The times at which a row was written are left out.
-/

namespace StudioOS.Builds

/-- `workflow_run` of a delivery, or an item of the API answer. -/
structure WorkflowRun where
  /-- `None` where `int(run["id"])` fails. -/
  id : Option Int
  /-- GitHub's count of the attempts; it is read nowhere. -/
  runAttempt : Nat
  status : Option String
  conclusion : Option String
  name : Option String
  runNumber : Option Int
  headBranch : Option String
  headSha : Option String
  prNumber : Option Int
  htmlUrl : Option String
  actorLogin : Option String
  runStartedAt : Option String
  updatedAt : Option String

inductive BuildStatus where
  | queued
  | inProgress
  | succeeded
  | failed
deriving DecidableEq

inductive EventType where
  | buildStarted
  | buildSucceeded
  | buildFailed
deriving DecidableEq

def EventType.value : EventType → String
  | .buildStarted => "build.started"
  | .buildSucceeded => "build.succeeded"
  | .buildFailed => "build.failed"

def statusRank : BuildStatus → Nat
  | .queued => 0
  | .inProgress => 1
  | .succeeded => 2
  | .failed => 2

/-- The statuses of a run that waits. -/
def waiting : List String := ["queued", "waiting", "requested", "pending"]

def buildEventType (status : String) (conclusion : Option String) : Option EventType :=
  if status = "completed" then
    if conclusion = some "success" then some .buildSucceeded
    else if conclusion ∈ [some "failure", some "timed_out", some "cancelled"] then some .buildFailed
    else none
  else if status ∈ waiting ∨ status = "in_progress" then some .buildStarted
  else none

/-- The status of the row. -/
def buildStatus (status : String) (eventType : Option EventType) : BuildStatus :=
  if status ∈ waiting then .queued
  else if status = "in_progress" then .inProgress
  else if eventType = some .buildSucceeded then .succeeded
  else if eventType = some .buildFailed then .failed
  else .inProgress

/-- `BuildModel`, without its key in the table of the project. -/
structure Build where
  githubIntegrationId : Uuid
  workflowName : String
  runNumber : Int
  branch : String
  commitSha : String
  prNumber : Option Int
  status : BuildStatus
  conclusion : Option String
  htmlUrl : String
  actorLogin : String
  startedAt : Option Timestamp
  completedAt : Option Timestamp

structure Event (ι : Type) where
  eventId : ι
  eventType : EventType
  workflowRunId : Int

/-- What is outside this part of the program. -/
structure Env (ι : Type) where
  /-- `str(integration.project_id)`. -/
  projectId : String
  integrationId : Uuid
  /-- `uuid.uuid5(uuid.NAMESPACE_URL, name)`. -/
  uuid5 : String → ι
  /-- `datetime.fromisoformat`, in UTC. -/
  fromIsoformat : String → Option Timestamp

variable {ι : Type}

/-- `str(value or default)`. -/
def orText (value : Option String) (default : String) : String :=
  match value with
  | some text => if text = "" then default else text
  | none => default

def Env.parseDt (env : Env ι) (value : Option String) : Option Timestamp :=
  value.bind fun text => if text = "" then none else env.fromIsoformat text

def Env.eventId (env : Env ι) (parts : List String) : ι :=
  env.uuid5 ("studio-github:" ++ ":".intercalate parts)

def WorkflowRun.eventType (run : WorkflowRun) : Option EventType :=
  buildEventType (orText run.status "") run.conclusion

/-- The values of the row, as `_ingest_workflow_run` and `_normalize_api_run`
compute them. -/
def Env.values (env : Env ι) (run : WorkflowRun) : Build where
  githubIntegrationId := env.integrationId
  workflowName := orText run.name "unknown"
  runNumber := run.runNumber.getD 0
  branch := orText run.headBranch ""
  commitSha := orText run.headSha ""
  prNumber := run.prNumber
  status := buildStatus (orText run.status "") run.eventType
  conclusion := run.conclusion
  htmlUrl := orText run.htmlUrl ""
  actorLogin := orText run.actorLogin "unknown"
  startedAt := env.parseDt run.runStartedAt
  completedAt := env.parseDt run.updatedAt

/-- The event of the run, with the identity that a redelivery shares. -/
def Env.event (env : Env ι) (runId : Int) (eventType : EventType) : Event ι where
  eventId := env.eventId [env.projectId, "run-" ++ toString runId, eventType.value]
  eventType := eventType
  workflowRunId := runId

def Build.rank (build : Build) : Nat := statusRank build.status

/-- `upsert_build`: `ON CONFLICT DO UPDATE` where the stored rank is not
higher. -/
def upsertBuild (stored : Option Build) (values : Build) : Build :=
  Ranked.accept Build.rank stored values

inductive Phase (ι : Type) where
  | idle
  /-- `create_event` looks for the event. -/
  | looking (event : Event ι)
  | inserting (event : Event ι)
  /-- An `IntegrityError` ended the worker. -/
  | failed

structure Worker (ι : Type) where
  runs : List WorkflowRun
  phase : Phase ι

structure State (ι : Type) where
  /-- The rows by `workflow_run_id`. -/
  builds : Int → Option Build
  events : List (Event ι)
  workers : List (Worker ι)
  /-- What was upserted so far, with its run. -/
  processed : List (Int × WorkflowRun)

def State.start (deliveries : List (List WorkflowRun)) : State ι where
  builds _ := none
  events := []
  workers := deliveries.map fun runs => ⟨runs, .idle⟩
  processed := []

def State.put (s : State ι) (i : Nat) (worker : Worker ι) : State ι :=
  { s with workers := s.workers.set i worker }

def Env.afterUpsert (env : Env ι) (runId : Int) (run : WorkflowRun) : Phase ι :=
  match run.eventType with
  | some eventType => .looking (env.event runId eventType)
  | none => .idle

variable [DecidableEq ι]

def Env.advance (env : Env ι) (s : State ι) (i : Nat) (worker : Worker ι) : Option (State ι) :=
  match worker.phase, worker.runs with
  | .idle, [] => none
  | .idle, run :: rest =>
    match run.id with
    | none => some (s.put i ⟨rest, .idle⟩)
    | some runId =>
      some
        { s.put i ⟨rest, env.afterUpsert runId run⟩ with
          builds := Function.update s.builds runId
            (some (upsertBuild (s.builds runId) (env.values run)))
          processed := s.processed ++ [(runId, run)] }
  | .looking event, runs =>
    if (s.events.any fun other => other.eventId = event.eventId) = true then
      some (s.put i ⟨runs, .idle⟩)
    else some (s.put i ⟨runs, .inserting event⟩)
  | .inserting event, runs =>
    if (s.events.any fun other => other.eventId = event.eventId) = true then
      some (s.put i ⟨runs, .failed⟩)
    else some { s.put i ⟨runs, .idle⟩ with events := s.events ++ [event] }
  | .failed, _ => none

def Env.step (env : Env ι) (s : State ι) (i : Nat) : Option (State ι) :=
  s.workers[i]?.bind (env.advance s i)

def Env.run (env : Env ι) : State ι → List Nat → Option (State ι)
  | s, [] => some s
  | s, i :: rest => (env.step s i).bind fun next => env.run next rest

end StudioOS.Builds
