import StudioOS.Library.Runs
import StudioOS.Sync.Calls

/-!
# Sync — Sessions

The life of the work sessions around `sync`: `services/sessions.py` starts and
ends them, `services/coordination.py` posts a signal from one to another, and
`services/handoff.py` ends a session and leaves its cursor to the next session
of the task.
-/

namespace StudioOS.Sync

open Authz

/-- The rows, and what the clients saw. -/
structure World where
  store : Store
  /-- `work_sessions.agent_id`. -/
  agentId : Uuid → Option Uuid
  /-- `tasks.handoff_cursor_seq`. -/
  handoffCursor : Uuid → Option Nat
  /-- The cursor a session started from. -/
  baseline : Uuid → Nat
  /-- The answers a session received, the last one first. -/
  answers : Uuid → List SyncResult

def World.row (w : World) (id : Uuid) : Option WorkSession := w.store.sessionOf (some id)

/-- What a session has acknowledged. -/
def World.cursor (w : World) (id : Uuid) : Nat :=
  ((w.row id).bind WorkSession.syncCursorSeq).getD 0

structure WorkSessionCreate where
  taskId : Uuid
  machineId : Uuid
  agentId : Option Uuid

def ensureTaskProjectAccess (st : Store) (principal : Principal) (taskId : Uuid)
    (action : String) : Except HttpError Unit :=
  match st.tasks taskId with
  | some task => ensureProjectAccess principal task.projectId action
  | none => .ok ()

def authorizeStart (st : Store) (principal : Principal) (sessionIn : WorkSessionCreate) :
    Except HttpError Unit := do
  ensureTaskProjectAccess st principal sessionIn.taskId "write"
  ensureCanWrite principal "session"
  match sessionIn.agentId with
  | some id =>
    if ownsAgent (st.agents id) principal.machine then return ()
    else throw { status := 409, detail := [("error_code", "actor_not_owned")] }
  | none => return ()

/-- A live session of the task and the machine, for another agent. -/
def World.supersededBy (w : World) (sessionIn : WorkSessionCreate) (row : WorkSession) : Bool :=
  row.taskId = sessionIn.taskId && row.machineId = sessionIn.machineId &&
    row.endedAt.isNone && w.agentId row.id ≠ sessionIn.agentId

/-- A session ends. -/
def WorkSession.close (row : WorkSession) (now : Timestamp) : WorkSession :=
  { row with endedAt := some now, lastActivityAt := some now }

/-- `start_session`: `_close_sessions_for_another_identity`, then the new
row, which inherits the handoff cursor of the task. The task is a foreign
key. -/
def World.startSession (w : World) (principal : Principal) (sessionIn : WorkSessionCreate)
    (id : Uuid) (now : Timestamp) : Except HttpError World := do
  authorizeStart w.store principal sessionIn
  ensureMachineOwned principal (some sessionIn.machineId) "session" "start"
  if (w.store.tasks sessionIn.taskId).isNone then throw taskNotFound
  let handoffCursor := w.handoffCursor sessionIn.taskId
  let workSession : WorkSession :=
    { id := id, taskId := sessionIn.taskId, machineId := sessionIn.machineId, endedAt := none,
      lastActivityAt := some now, syncCursorSeq := handoffCursor }
  return { w with
    store := { w.store with
      sessions := (w.store.sessions.map fun row =>
        if w.supersededBy sessionIn row then row.close now else row) ++ [workSession] }
    agentId := Function.update w.agentId id sessionIn.agentId
    baseline := Function.update w.baseline id (handoffCursor.getD 0)
    answers := Function.update w.answers id [] }

/-- A session ends, if it has not. -/
def World.close (w : World) (id : Uuid) (now : Timestamp) : World :=
  { w with
    store := w.store.updateSession id fun row =>
      if row.endedAt.isSome then row else row.close now }

/-- `end_session`, but for the claims it releases. -/
def World.endSession (w : World) (principal : Principal) (id : Uuid) (now : Timestamp) :
    Except HttpError World :=
  match w.row id with
  | none => .error { status := 404, detail := [("message", "session not found")] }
  | some row => do
    ensureTaskProjectAccess w.store principal row.taskId "write"
    ensureMachineOwned principal (some row.machineId) "session" "end"
    return w.close id now

/-- `ack_handoff_cursor`: `GREATEST`, which skips a `NULL`. -/
def World.ackHandoffCursor (w : World) (taskId : Uuid) (seq : Nat) : World :=
  { w with
    handoffCursor := Function.update w.handoffCursor taskId
      (some (max ((w.handoffCursor taskId).getD 0) seq)) }

/-- `CoordinationEmit`; `refs` is the dict the payload stores. -/
structure CoordinationEmit where
  fromSessionId : Uuid
  intent : String
  taskId : Uuid
  sessionId : Option Uuid
  text : String
  refs : JsonValue
  inReplyTo : Option Uuid

def invalidCoordination (message : String) : HttpError :=
  { status := 422, detail := [("error_code", "invalid_coordination"), ("message", message)] }

def CoordinationEmit.payload (body : CoordinationEmit) : Payload :=
  [("intent", .string body.intent), ("task_id", .string body.taskId.str),
    ("from_session_id", .string body.fromSessionId.str), ("text", .string body.text),
    ("refs", body.refs)] ++
  (body.sessionId.toList.map fun id => ("session_id", .string id.str)) ++
  (body.inReplyTo.toList.map fun id => ("in_reply_to", .string id.str))

def CoordinationEmit.event (body : CoordinationEmit) (principal : Principal) (eventId : Uuid)
    (seq : Nat) : Event :=
  { id := eventId
    seq := seq
    eventType := coordinationPrefix ++ body.intent
    taskId := some body.taskId
    machineId := some principal.machine.id
    payload := body.payload }

/-- The session that emits: it exists and is open. -/
def World.emitter (w : World) (id : Uuid) : Except HttpError WorkSession :=
  match w.row id with
  | some row =>
    if row.endedAt.isSome then .error (sessionNotFound "unknown or ended emitting session")
    else .ok row
  | none => .error (sessionNotFound "unknown or ended emitting session")

/-- A live session of the target task. -/
def World.targetSession (w : World) (taskId id : Uuid) : Bool :=
  match w.row id with
  | some row => row.endedAt.isNone && row.taskId = taskId
  | none => false

/-- An event is committed to the log of a project. -/
def Store.append (st : Store) (projectId : Uuid) (event : Event) : Store :=
  { st with events := Function.update st.events projectId (st.events projectId ++ [event]) }

/-- `emit`, for a new event id. The checks of the references, of a
completed target and of the rate limit only refuse; they are left out, so
that `emit` posts every signal that the source posts. -/
def World.emit (w : World) (principal : Principal) (body : CoordinationEmit) (eventId : Uuid)
    (seq : Nat) (now : Timestamp) : Except HttpError World := do
  ensureCanWrite principal "coordination"
  let emitter ← w.emitter body.fromSessionId
  match ← readTask w.store principal emitter.taskId with
  | none => throw taskNotFound
  | some emitterTask =>
    ensureMachineOwned principal (some emitter.machineId) "session" "coordinate"
    match ← readTask w.store principal body.taskId with
    | none => throw (invalidCoordination
        "target task must exist in the emitting session's project")
    | some target =>
      if target.projectId ≠ emitterTask.projectId then
        throw (invalidCoordination "target task must exist in the emitting session's project")
      if body.sessionId.any fun id => !w.targetSession target.id id then
        throw (invalidCoordination "session_id must be a live session of the target task")
      return { w with
        store := (w.store.append emitterTask.projectId
          (body.event principal eventId seq)).touchSession emitter.id now }

/-- The last write of `handoff`: the cursor of the session it has ended
becomes the handoff cursor of the task. A handoff that is retried comes
here again. -/
def World.handOver (w : World) (principal : Principal) (id : Uuid) : Except HttpError World :=
  match w.row id with
  | none => .error { status := 404, detail := [("message", "session not found")] }
  | some row => do
    ensureMachineOwned principal (some row.machineId) "session" "end"
    if row.endedAt.isNone then throw (sessionNotFound "the handoff has not ended the session")
    match row.syncCursorSeq with
    | some seq => return w.ackHandoffCursor row.taskId seq
    | none => return w

/-- `sync`, with its answer received by the session of the call. -/
def World.sync (py : Pydantic) (w : World) (principal : Principal) (q : SyncQuery)
    (now : Timestamp) : Except HttpError World := do
  let (result, st) ← Sync.sync py w.store now principal q
  return { w with
    store := st
    answers := match q.sessionId with
      | some id => Function.update w.answers id (result :: w.answers id)
      | none => w.answers }

inductive Act where
  | start (principal : Principal) (sessionIn : WorkSessionCreate) (id : Uuid) (now : Timestamp)
  | sync (principal : Principal) (q : SyncQuery) (now : Timestamp)
  | emit (principal : Principal) (body : CoordinationEmit) (eventId : Uuid) (seq : Nat)
      (now : Timestamp)
  | endSession (principal : Principal) (id : Uuid) (now : Timestamp)
  /-- `close_session`, on the server's behalf. -/
  | close (id : Uuid) (now : Timestamp)
  | handOver (principal : Principal) (id : Uuid)
  /-- Another service commits an event; `coordination.*` is reserved. -/
  | publish (projectId : Uuid) (event : Event)
  /-- The other rows that `sync` reads change. -/
  | elsewhere (agents : Uuid → Option Agent) (related : Uuid → Uuid → List Uuid)
      (claims : Uuid → List Claim)

/-- `events.seq` is drawn from a sequence: it is positive and above every
seq of the log. -/
def Store.NextSeq (st : Store) (projectId : Uuid) (seq : Nat) : Prop :=
  0 < seq ∧ ∀ e ∈ st.events projectId, e.seq < seq

instance (st : Store) (projectId : Uuid) (seq : Nat) : Decidable (st.NextSeq projectId seq) :=
  inferInstanceAs (Decidable (_ ∧ _))

/-- One call. A session id is new, and a seq is the next one. -/
def World.step (py : Pydantic) (w : World) : Act → Option World
  | .start principal sessionIn id now =>
    if (w.row id).isSome then none else (w.startSession principal sessionIn id now).toOption
  | .sync principal q now => (w.sync py principal q now).toOption
  | .emit principal body eventId seq now =>
    match w.store.tasks body.taskId with
    | none => none
    | some target =>
      if w.store.NextSeq target.projectId seq then
        (w.emit principal body eventId seq now).toOption
      else none
  | .endSession principal id now => (w.endSession principal id now).toOption
  | .close id now => some (w.close id now)
  | .handOver principal id => (w.handOver principal id).toOption
  | .publish projectId event =>
    if w.store.NextSeq projectId event.seq ∧ isCoordination event = false then
      some { w with store := w.store.append projectId event }
    else none
  | .elsewhere agents related claims =>
    some { w with store := { w.store with agents := agents, related := related, claims := claims } }

/-- `handoff` of a live session: the calls it composes, in the order of
their commits. -/
def handoffActs (principal : Principal) (id : Uuid) (cursor : Option Nat) (now : Timestamp)
    (coordination : Option (CoordinationEmit × Uuid × Nat)) : List Act :=
  [.sync principal { sessionId := some id, ack := cursor.map Int.ofNat } now] ++
  (coordination.toList.map fun signal => .emit principal signal.1 signal.2.1 signal.2.2 now) ++
  [.endSession principal id now, .handOver principal id]

/-- Each client acknowledges only a `next_cursor` it received, or what it
has acknowledged. -/
def Acks (w : World) : Act → Prop
  | .sync _ q _ => ∀ id ∈ q.sessionId, ∀ ack ∈ q.ack,
      ack ≤ w.cursor id ∨ ∃ r ∈ w.answers id, ack = r.nextCursor
  | _ => True

instance (w : World) (act : Act) : Decidable (Acks w act) := by
  unfold Acks
  split <;> infer_instance

end StudioOS.Sync
