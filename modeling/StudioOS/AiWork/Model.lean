import StudioOS.Library.Runs
import StudioOS.Authz

/-!
# AiWork — an entry of the AI work log and its events

`services/ai_work.py` on one entry: `create_ai_work` and `update_ai_work`, transaction by
transaction. An update reads the row, checks against what it has read, commits the columns it
changed and announces a new status in a transaction of its own, with an event id made of the entry
and the type.
-/

namespace StudioOS.AiWork

open Authz

inductive AIWorkStatus where
  | started
  | completed
  | failed
  | reviewRequested
  | approved
  | changesRequested
deriving DecidableEq

def AIWorkStatus.value : AIWorkStatus → String
  | .started => "started"
  | .completed => "completed"
  | .failed => "failed"
  | .reviewRequested => "review_requested"
  | .approved => "approved"
  | .changesRequested => "changes_requested"

inductive EventType where
  | aiWorkStarted
  | aiWorkCompleted
  | aiWorkFailed
  | aiWorkReviewRequested
  | aiWorkApproved
  | aiWorkChangesRequested
deriving DecidableEq

def EventType.value : EventType → String
  | .aiWorkStarted => "ai_work.started"
  | .aiWorkCompleted => "ai_work.completed"
  | .aiWorkFailed => "ai_work.failed"
  | .aiWorkReviewRequested => "ai_work.review_requested"
  | .aiWorkApproved => "ai_work.approved"
  | .aiWorkChangesRequested => "ai_work.changes_requested"

def statusEventTypes : AIWorkStatus → Option EventType
  | .started => none
  | .completed => some .aiWorkCompleted
  | .failed => some .aiWorkFailed
  | .reviewRequested => some .aiWorkReviewRequested
  | .approved => some .aiWorkApproved
  | .changesRequested => some .aiWorkChangesRequested

def reviewResolutions : List AIWorkStatus := [.approved, .changesRequested]

/-- An entry, without the fields that nothing here reads. -/
structure Work where
  taskId : Option Uuid
  projectId : Uuid
  agentId : Uuid
  machineId : Option Uuid
  sessionId : Option Uuid
  summary : String
  status : AIWorkStatus
  changedFiles : List String
  testsRun : List String
  startedAt : Timestamp
  endedAt : Option Timestamp

structure WorkCreate where
  taskId : Option Uuid
  projectId : Uuid
  agentId : Uuid
  machineId : Option Uuid
  sessionId : Option Uuid
  summary : String
  status : AIWorkStatus
  changedFiles : List String
  testsRun : List String

structure WorkUpdate where
  summary : Option String
  status : Option AIWorkStatus
  changedFiles : Option (List String)
  testsRun : Option (List String)
  sessionId : Option Uuid

structure WorkSession where
  machineId : Option Uuid
  taskId : Option Uuid

/-- The rows that the checks of a call read. -/
structure Reads where
  agent : Option Agent
  /-- The session that the call links. -/
  session : Option WorkSession
  /-- The project of a task. -/
  project : Uuid → Option Uuid

structure Event where
  eventId : String
  eventType : EventType
  projectId : Uuid
  taskId : Option Uuid
  machineId : Option Uuid
  actorType : String
  actorId : Uuid
  summary : String
  status : AIWorkStatus

structure Env where
  uuid5 : String → String
  workId : String

def Env.eventName (env : Env) (eventType : EventType) : String :=
  env.workId ++ ":" ++ eventType.value

def Env.deriveEventId (env : Env) (eventType : EventType) : String :=
  env.uuid5 (env.eventName eventType)

def conflict (errorCode message : String) : HttpError :=
  { status := 409, detail := [("error_code", errorCode), ("message", message)] }

def ensureSessionLink (principal : Principal) (reads : Reads) (projectId : Uuid)
    (taskId : Option Uuid) : Except HttpError Unit :=
  match reads.session with
  | none => .error { status := 404, detail := [("detail", "session not found")] }
  | some session => do
    ensureMachineOwned principal session.machineId "session" "link"
    if taskId.isSome ∧ session.taskId.isSome ∧ session.taskId ≠ taskId then
      throw (conflict "invalid_session" "session belongs to another task")
    match session.taskId.or taskId with
    | none => return ()
    | some linked =>
      if (reads.project linked).any (· ≠ projectId) then
        throw (conflict "invalid_session" "session belongs to another project")

def ensureLink (principal : Principal) (reads : Reads) (projectId : Uuid)
    (taskId sessionId : Option Uuid) : Except HttpError Unit :=
  if sessionId.isSome then ensureSessionLink principal reads projectId taskId else .ok ()

/-- The checks of `create_ai_work`. -/
def checkCreate (principal : Principal) (workIn : WorkCreate) (reads : Reads) :
    Except HttpError Unit := do
  ensureProjectAccess principal workIn.projectId "write"
  ensureCanWrite principal "ai_work"
  if ownsAgent reads.agent principal.machine = false then
    throw (conflict "actor_not_owned"
      "agent_id must be an agent attached to the authenticated machine")
  ensureLink principal reads workIn.projectId workIn.taskId workIn.sessionId
  if workIn.status ∈ reviewResolutions then
    throw (conflict "invalid_status_transition"
      ("cannot create an entry with status '" ++ workIn.status.value ++ "'"))

def ensureAiWorkOwned (principal : Principal) (work : Work) (agent : Option Agent) :
    Except HttpError Unit := do
  ensureCanWrite principal "ai_work"
  if principal.role = .admin then return ()
  match work.machineId with
  | some machineId =>
    if machineId ≠ principal.machine.id then throw (forbidden "ai_work" "update")
  | none =>
    if ownsAgent agent principal.machine = false then throw (forbidden "ai_work" "update")

def ensureCanResolveReview (principal : Principal) (work : Work) (target : AIWorkStatus) :
    Except HttpError Unit := do
  ensureCanWrite principal "ai_work"
  if principal.role ≠ .admin then throw (forbidden "ai_work" "resolve_review")
  if work.status ≠ .reviewRequested then
    throw (conflict "invalid_status_transition"
      ("cannot set status '" ++ target.value ++ "' from '" ++ work.status.value ++ "'"))

/-- The update resolves a review. -/
def WorkUpdate.resolves (workIn : WorkUpdate) : Option AIWorkStatus :=
  workIn.status.filter (· ∈ reviewResolutions)

/-- The checks of `update_ai_work`, on the row it has read. -/
def checkUpdate (principal : Principal) (work : Work) (workIn : WorkUpdate) (reads : Reads) :
    Except HttpError Unit := do
  ensureProjectAccess principal work.projectId "write"
  match workIn.resolves with
  | some target => ensureCanResolveReview principal work target
  | none => ensureAiWorkOwned principal work reads.agent
  ensureLink principal reads work.projectId work.taskId workIn.sessionId

def isTerminal (status : AIWorkStatus) : Bool := status = .completed || status = .failed

def WorkCreate.work (workIn : WorkCreate) (now : Timestamp) : Work :=
  { taskId := workIn.taskId
    projectId := workIn.projectId
    agentId := workIn.agentId
    machineId := workIn.machineId
    sessionId := workIn.sessionId
    summary := workIn.summary
    status := workIn.status
    changedFiles := workIn.changedFiles
    testsRun := workIn.testsRun
    startedAt := now
    endedAt := if isTerminal workIn.status then some now else none }

/-- What an update makes of the row it has read. -/
def WorkUpdate.write (workIn : WorkUpdate) (work : Work) (now : Timestamp) : Work :=
  { work with
    summary := workIn.summary.getD work.summary
    status := workIn.status.getD work.status
    endedAt := if workIn.status.any isTerminal then some now else work.endedAt
    changedFiles := workIn.changedFiles.getD work.changedFiles
    testsRun := workIn.testsRun.getD work.testsRun
    sessionId := workIn.sessionId.or work.sessionId }

/-- The row after the UPDATE of a call that has read `read` and made `new` of it. -/
def Work.flush (read new current : Work) : Work :=
  { current with
    summary := flushed read.summary new.summary current.summary
    status := flushed read.status new.status current.status
    endedAt := flushed read.endedAt new.endedAt current.endedAt
    changedFiles := flushed read.changedFiles new.changedFiles current.changedFiles
    testsRun := flushed read.testsRun new.testsRun current.testsRun
    sessionId := flushed read.sessionId new.sessionId current.sessionId }

/-- An event that a call has still to emit. -/
structure Pending where
  eventType : EventType
  actorType : String
  actorId : Uuid

/-- What `create_ai_work` emits. -/
def WorkCreate.pending (workIn : WorkCreate) : List Pending :=
  ⟨.aiWorkStarted, "agent", workIn.agentId⟩ ::
    ((statusEventTypes workIn.status).map fun eventType =>
      (⟨eventType, "agent", workIn.agentId⟩ : Pending)).toList

/-- What `update_ai_work` emits, the id of its user being `userId`. -/
def WorkUpdate.pending (workIn : WorkUpdate) (read : Work) (userId : Uuid) : List Pending :=
  match workIn.status with
  | none => []
  | some status =>
    if status = read.status then []
    else
      ((statusEventTypes status).map fun eventType =>
        if status ∈ reviewResolutions then (⟨eventType, "user", userId⟩ : Pending)
        else ⟨eventType, "agent", read.agentId⟩).toList

/-- `_emit_ai_work_event`, the event it makes. -/
def Pending.event (pending : Pending) (env : Env) (work : Work) : Event :=
  { eventId := env.deriveEventId pending.eventType
    eventType := pending.eventType
    projectId := work.projectId
    taskId := work.taskId
    machineId := work.machineId
    actorType := pending.actorType
    actorId := pending.actorId
    summary := work.summary
    status := work.status }

/-- `create_event`: the stored event, if there is one with the id. -/
def createEvent (events : List Event) (event : Event) : List Event :=
  if events.any (·.eventId = event.eventId) then events else events ++ [event]

/-- Where a call stands. -/
inductive Call where
  /-- An update has read the row. -/
  | read (principal : Principal) (workIn : WorkUpdate) (work : Work)
  /-- It has passed its checks. -/
  | checked (userId : Uuid) (workIn : WorkUpdate) (work : Work)
  /-- It has committed; before `session.refresh`. -/
  | committed (pending : List Pending)
  | emitting (work : Work) (pending : List Pending)
  | refused (error : HttpError)

def Call.pending : Call → List Pending
  | .committed pending => pending
  | .emitting _ pending => pending
  | _ => []

/-- The types of the events that the call has still to emit. -/
def Call.owed (call : Call) : List EventType := call.pending.map Pending.eventType

/-- The entry, the statuses it has had in the order of their commits, its
events and the calls. -/
structure State where
  work : Option Work
  history : List AIWorkStatus
  events : List Event
  calls : List Call

def State.start : State := { work := none, history := [], events := [], calls := [] }

inductive Act where
  /-- `create_ai_work`, up to its commit. -/
  | create (principal : Principal) (workIn : WorkCreate) (reads : Reads) (now : Timestamp)
  /-- `update_ai_work` reads the row. -/
  | begin (principal : Principal) (workIn : WorkUpdate)
  | check (c : Nat) (reads : Reads)
  | commit (c : Nat) (now : Timestamp)
  | refresh (c : Nat)
  | emit (c : Nat)

def State.put (s : State) (c : Nat) (call : Call) : State :=
  { s with calls := s.calls.set c call }

def State.commit (s : State) (c : Nat) (userId : Uuid) (workIn : WorkUpdate) (read current : Work)
    (now : Timestamp) : State :=
  let row := Work.flush read (workIn.write read now) current
  { s.put c (.committed (workIn.pending read userId)) with
    work := some row
    history := if row.status = current.status then s.history else s.history ++ [row.status] }

def step (env : Env) (s : State) : Act → Option State
  | .create principal workIn reads now =>
    match s.work, checkCreate principal workIn reads with
    | none, .ok () =>
      some { s with
        work := some (workIn.work now)
        history := [workIn.status]
        calls := s.calls ++ [.committed workIn.pending] }
    | none, .error error => some { s with calls := s.calls ++ [.refused error] }
    | some _, _ => none
  | .begin principal workIn =>
    s.work.map fun work => { s with calls := s.calls ++ [.read principal workIn work] }
  | .check c reads =>
    match s.calls[c]? with
    | some (.read principal workIn work) =>
      match checkUpdate principal work workIn reads with
      | .ok () => some (s.put c (.checked principal.machine.ownerUserId workIn work))
      | .error error => some (s.put c (.refused error))
    | _ => none
  | .commit c now =>
    match s.calls[c]?, s.work with
    | some (.checked userId workIn read), some current =>
      some (s.commit c userId workIn read current now)
    | _, _ => none
  | .refresh c =>
    match s.calls[c]?, s.work with
    | some (.committed pending), some work => some (s.put c (.emitting work pending))
    | _, _ => none
  | .emit c =>
    match s.calls[c]? with
    | some (.emitting work (pending :: rest)) =>
      some { s.put c (.emitting work rest) with
        events := createEvent s.events (pending.event env work) }
    | _ => none

/-- An update that sets another status than it has read commits on an entry
that has not had the status before, if the status is announced, unless it has
it now; and a resolution commits on an entry in `review_requested`. -/
def State.undisturbed (s : State) : Call → Bool
  | .checked _ workIn read =>
    match workIn.status, s.work with
    | some status, some current =>
      status = read.status ||
        ((status = current.status || (statusEventTypes status).isNone || status ∉ s.history) &&
          (status ∉ reviewResolutions || current.status = .reviewRequested))
    | _, _ => true
  | _ => true

def Undisturbed (s : State) : Act → Prop
  | .commit c _ => ∀ call ∈ s.calls[c]?, s.undisturbed call = true
  | _ => True

instance (s : State) (act : Act) : Decidable (Undisturbed s act) :=
  match act with
  | .commit c _ => inferInstanceAs (Decidable (∀ call ∈ s.calls[c]?, s.undisturbed call = true))
  | .create .. | .begin .. | .check .. | .refresh _ | .emit _ => .isTrue trivial

def State.eventTypes (s : State) : List EventType := s.events.map Event.eventType

/-- Some call has still to emit an event of the type. -/
def State.Owes (s : State) (eventType : EventType) : Prop :=
  ∃ (c : Nat) (call : Call), s.calls[c]? = some call ∧ eventType ∈ call.owed

/-- No announced status has more events than the entry has had changes to it,
and it has as many as soon as no call has still to emit one. -/
def State.Announced (s : State) : Prop :=
  ∀ status eventType, statusEventTypes status = some eventType →
    s.eventTypes.count eventType ≤ s.history.count status ∧
      (¬ s.Owes eventType → s.eventTypes.count eventType = s.history.count status)

/-- A resolution is reached only from `review_requested`. -/
def FromReview (before after : AIWorkStatus) : Prop :=
  after ∈ reviewResolutions → before = .reviewRequested

/-- The statuses of an entry: it does not begin with a resolution, and each
resolution follows a `review_requested`. -/
def Reviewed (history : List AIWorkStatus) : Prop :=
  (∀ status ∈ history.head?, status ∉ reviewResolutions) ∧ history.IsChain FromReview

/-- The call resolves a review: it has still to commit a resolution. -/
def Resolving : Call → Prop
  | .checked _ workIn _ => workIn.resolves.isSome
  | _ => False

end StudioOS.AiWork
