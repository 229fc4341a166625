import StudioOS.Library.Runs
import StudioOS.Authz

/-!
# WorkSessions — the live sessions of the machines

`services/sessions.py`: `start_session`, `resume_or_start_session` and `end_session`, statement by
statement. A statement sees what was committed when it started. The writes of a call reach the table
at its commit; the rows that it updates are locked from the UPDATE on.
-/

namespace StudioOS.WorkSessions

open Authz

structure WorkSession where
  taskId : Uuid
  machineId : Uuid
  agentId : Option Uuid
  startedAt : Timestamp
  endedAt : Option Timestamp
  lastActivityAt : Option Timestamp
  syncCursorSeq : Option Int
deriving DecidableEq

structure WorkSessionCreate where
  taskId : Uuid
  machineId : Uuid
  agentId : Option Uuid

inductive SessionStatus where
  | active
  | idle
  | expired
  | ended
deriving DecidableEq

structure Settings where
  sessionIdleAfterSeconds : Nat
  sessionExpireAfterSeconds : Nat

def effectiveActivity (workSession : WorkSession) : Timestamp :=
  workSession.lastActivityAt.getD workSession.startedAt

/-- `derive_session_status` at `now`. -/
def deriveSessionStatus (workSession : WorkSession) (settings : Settings) (now : Timestamp) :
    SessionStatus :=
  if workSession.endedAt.isSome then .ended
  else
    let age : Int := now - effectiveActivity workSession
    if age > seconds settings.sessionExpireAfterSeconds then .expired
    else if age > seconds settings.sessionIdleAfterSeconds then .idle
    else .active

/-- What the checks of a call read: the project of the task and the agent. -/
structure Reads where
  project : Option Uuid
  agent : Option Agent

def ensureTaskProjectAccess (principal : Principal) (reads : Reads) (action : String) :
    Except HttpError Unit :=
  match reads.project with
  | none => .ok ()
  | some projectId => ensureProjectAccess principal projectId action

def authorizeStart (principal : Principal) (sessionIn : WorkSessionCreate) (reads : Reads) :
    Except HttpError Unit := do
  ensureTaskProjectAccess principal reads "write"
  ensureCanWrite principal "session"
  if sessionIn.agentId.isSome ∧ ownsAgent reads.agent principal.machine = false then
    throw { status := 409, detail := [("error_code", "actor_not_owned")] }

/-- The checks of `start_session` and `resume_or_start_session`. -/
def checkStart (principal : Principal) (sessionIn : WorkSessionCreate) (reads : Reads)
    (action : String) : Except HttpError Unit := do
  authorizeStart principal sessionIn reads
  ensureMachineOwned principal (some sessionIn.machineId) "session" action

/-- The checks of `end_session` on the row it has read. -/
def checkEnd (principal : Principal) (workSession : Option WorkSession) (reads : Reads) :
    Except HttpError WorkSession :=
  match workSession with
  | none => .error { status := 404, detail := [("detail", "session not found")] }
  | some workSession => do
    ensureTaskProjectAccess principal reads "write"
    ensureMachineOwned principal (some workSession.machineId) "session" "end"
    return workSession

/-- A session as it was read, and its place. -/
structure Found where
  place : Nat
  row : WorkSession

def WorkSession.SameWork (workSession : WorkSession) (sessionIn : WorkSessionCreate) : Prop :=
  workSession.taskId = sessionIn.taskId ∧ workSession.machineId = sessionIn.machineId

instance (workSession : WorkSession) (sessionIn : WorkSessionCreate) :
    Decidable (workSession.SameWork sessionIn) :=
  inferInstanceAs (Decidable (_ ∧ _))

/-- What `_find_open_session` looks for. -/
def WorkSession.OpenFor (workSession : WorkSession) (sessionIn : WorkSessionCreate) : Prop :=
  workSession.SameWork sessionIn ∧ workSession.endedAt = none ∧
    workSession.agentId = sessionIn.agentId

instance (workSession : WorkSession) (sessionIn : WorkSessionCreate) :
    Decidable (workSession.OpenFor sessionIn) :=
  inferInstanceAs (Decidable (_ ∧ _ ∧ _))

/-- What `_close_sessions_for_another_identity` closes. -/
def WorkSession.OpenForAnother (workSession : WorkSession) (sessionIn : WorkSessionCreate) : Prop :=
  workSession.SameWork sessionIn ∧ workSession.endedAt = none ∧
    workSession.agentId ≠ sessionIn.agentId

instance (workSession : WorkSession) (sessionIn : WorkSessionCreate) :
    Decidable (workSession.OpenForAnother sessionIn) :=
  inferInstanceAs (Decidable (_ ∧ _ ∧ _))

/-- `existing` is an answer to `_find_open_session`: a newest open session, if
there is one. Which of several is not determined. -/
def IsNewest (rows : List WorkSession) (sessionIn : WorkSessionCreate) : Option Nat → Prop
  | none => ∀ row ∈ rows, ¬ row.OpenFor sessionIn
  | some place => ∃ newest ∈ rows[place]?, newest.OpenFor sessionIn ∧
      ∀ row ∈ rows, row.OpenFor sessionIn → row.startedAt ≤ newest.startedAt

instance (rows : List WorkSession) (sessionIn : WorkSessionCreate) (existing : Option Nat) :
    Decidable (IsNewest rows sessionIn existing) :=
  match existing with
  | none => inferInstanceAs (Decidable (∀ row ∈ rows, ¬ row.OpenFor sessionIn))
  | some place => inferInstanceAs (Decidable (∃ newest ∈ rows[place]?, newest.OpenFor sessionIn ∧
      ∀ row ∈ rows, row.OpenFor sessionIn → row.startedAt ≤ newest.startedAt))

/-- The sessions that `_close_sessions_for_another_identity` reads. -/
def openForAnother (rows : List WorkSession) (sessionIn : WorkSessionCreate) : List Found :=
  (rows.zipIdx.filter fun entry => entry.1.OpenForAnother sessionIn).map fun entry =>
    ⟨entry.2, entry.1⟩

/-- The row after the UPDATE that closes it, by a call that has read `read`. -/
def WorkSession.close (read current : WorkSession) (now : Timestamp) : WorkSession :=
  { current with
    endedAt := flushed read.endedAt (some now) current.endedAt
    lastActivityAt := flushed read.lastActivityAt (some now) current.lastActivityAt }

/-- The row after the UPDATE that touches it. -/
def WorkSession.touch (read current : WorkSession) (now : Timestamp) : WorkSession :=
  { current with
    lastActivityAt := flushed read.lastActivityAt (some now) current.lastActivityAt }

/-- The table after the sessions `closes` have been closed. -/
def closeAll (rows : List WorkSession) (closes : List Found) (now : Timestamp) : List WorkSession :=
  rows.mapIdx fun place current =>
    match closes.find? (·.place = place) with
    | none => current
    | some found => WorkSession.close found.row current now

def WorkSessionCreate.session (sessionIn : WorkSessionCreate) (now : Timestamp)
    (handoffCursor : Option Int) : WorkSession :=
  { taskId := sessionIn.taskId
    machineId := sessionIn.machineId
    agentId := sessionIn.agentId
    startedAt := now
    endedAt := none
    lastActivityAt := some now
    syncCursorSeq := handoffCursor }

/-! ## Calls -/

inductive Entry where
  | start
  | resume
deriving DecidableEq

/-- Where a call stands. -/
inductive Call where
  /-- `start_session` has passed its checks. -/
  | starting (sessionIn : WorkSessionCreate)
  /-- `resume_or_start_session` has passed its checks; before the lock. -/
  | waiting (sessionIn : WorkSessionCreate)
  | locked (sessionIn : WorkSessionCreate)
  /-- It has found a session that is not expired; before the commit. -/
  | touching (sessionIn : WorkSessionCreate) (found : Found) (now : Timestamp)
  /-- It has found none, or one that is expired. -/
  | replacing (sessionIn : WorkSessionCreate) (existing : Option Found) (now : Timestamp)
  /-- The call will close `closes` and create a session. -/
  | creating (entry : Entry) (sessionIn : WorkSessionCreate) (closes : List Found)
      (now : Timestamp)
  /-- The session is committed; before the return. -/
  | committed (place : Nat) (resumed : Bool)
  /-- `end_session` has read an open session and passed its checks. -/
  | ending (found : Found)
  | returned (place : Nat) (resumed : Bool)
  | ended (place : Nat)
  | refused (error : HttpError)
  /-- The call has died; what it had not committed is rolled back. -/
  | failed

/-- The task whose row the call has locked. -/
def Call.holds : Call → Option Uuid
  | .locked sessionIn => some sessionIn.taskId
  | .touching sessionIn _ _ => some sessionIn.taskId
  | .replacing sessionIn _ _ => some sessionIn.taskId
  | .creating .resume sessionIn _ _ => some sessionIn.taskId
  | _ => none

/-- The session that the call resumes, until it has returned. -/
def Call.resumes : Call → Option Nat
  | .touching _ found _ => some found.place
  | .committed place true => some place
  | _ => none

structure State where
  rows : List WorkSession
  calls : List Call

def State.start : State := { rows := [], calls := [] }

inductive Act where
  /-- `start_session`, its checks. -/
  | start (principal : Principal) (sessionIn : WorkSessionCreate) (reads : Reads)
  /-- `resume_or_start_session`, its checks. -/
  | resume (principal : Principal) (sessionIn : WorkSessionCreate) (reads : Reads)
  | lock (c : Nat)
  /-- The clock is read at `now`, and at `later` for the status of `existing`. -/
  | find (c : Nat) (existing : Option Nat) (now later : Timestamp)
  /-- A start reads the clock and the sessions to close. -/
  | select (c : Nat) (now : Timestamp)
  /-- A resume that has nothing to resume reads the sessions to close. -/
  | supersede (c : Nat)
  | touch (c : Nat)
  | create (c : Nat) (handoffCursor : Option Int)
  /-- `end_session` reads the session, and its checks. -/
  | beginEnd (principal : Principal) (place : Nat) (reads : Reads)
  /-- The commit of `end_session`, after it has released the claims. -/
  | close (c : Nat) (now : Timestamp)
  | finish (c : Nat)
  | fail (c : Nat)

def State.put (s : State) (c : Nat) (call : Call) : State :=
  { s with calls := s.calls.set c call }

def State.push (s : State) (call : Call) : State := { s with calls := s.calls ++ [call] }

def State.isLocked (s : State) (taskId : Uuid) : Bool :=
  s.calls.any (·.holds = some taskId)

/-- What a resume goes on with once it has found `existing`. -/
def afterFind (settings : Settings) (sessionIn : WorkSessionCreate) (existing : Option Found)
    (now later : Timestamp) : Call :=
  match existing with
  | none => .replacing sessionIn none now
  | some found =>
    if deriveSessionStatus found.row settings later ≠ .expired then .touching sessionIn found now
    else .replacing sessionIn (some found) now

def step (settings : Settings) (s : State) : Act → Option State
  | .start principal sessionIn reads =>
    match checkStart principal sessionIn reads "start" with
    | .ok () => some (s.push (.starting sessionIn))
    | .error error => some (s.push (.refused error))
  | .resume principal sessionIn reads =>
    match checkStart principal sessionIn reads "resume" with
    | .ok () => some (s.push (.waiting sessionIn))
    | .error error => some (s.push (.refused error))
  | .lock c =>
    match s.calls[c]? with
    | some (.waiting sessionIn) =>
      if s.isLocked sessionIn.taskId then none else some (s.put c (.locked sessionIn))
    | _ => none
  | .find c existing now later =>
    match s.calls[c]? with
    | some (.locked sessionIn) =>
      if IsNewest s.rows sessionIn existing then
        let found := existing.bind fun place => s.rows[place]?.map (Found.mk place)
        some (s.put c (afterFind settings sessionIn found now later))
      else none
    | _ => none
  | .select c now =>
    match s.calls[c]? with
    | some (.starting sessionIn) =>
      some (s.put c (.creating .start sessionIn (openForAnother s.rows sessionIn) now))
    | _ => none
  | .supersede c =>
    match s.calls[c]? with
    | some (.replacing sessionIn existing now) =>
      some (s.put c (.creating .resume sessionIn
        (existing.toList ++ openForAnother s.rows sessionIn) now))
    | _ => none
  | .touch c =>
    match s.calls[c]? with
    | some (.touching _ found now) =>
      some { s.put c (.committed found.place true) with
        rows := s.rows.modify found.place fun current => found.row.touch current now }
    | _ => none
  | .create c handoffCursor =>
    match s.calls[c]? with
    | some (.creating entry sessionIn closes now) =>
      if entry = .start ∧ s.isLocked sessionIn.taskId then none
      else
        some { s.put c (.committed s.rows.length false) with
          rows := closeAll s.rows closes now ++ [sessionIn.session now handoffCursor] }
    | _ => none
  | .beginEnd principal place reads =>
    match checkEnd principal s.rows[place]? reads with
    | .error error => some (s.push (.refused error))
    | .ok workSession =>
      if workSession.endedAt.isSome then some (s.push (.ended place))
      else some (s.push (.ending ⟨place, workSession⟩))
  | .close c now =>
    match s.calls[c]? with
    | some (.ending found) =>
      some { s.put c (.ended found.place) with rows := closeAll s.rows [found] now }
    | _ => none
  | .finish c =>
    match s.calls[c]? with
    | some (.committed place resumed) => some (s.put c (.returned place resumed))
    | _ => none
  | .fail c => s.calls[c]?.map fun _ => s.put c .failed

/-- The sessions that the commit of a call closes, each with the time. -/
def State.closes (s : State) : Act → List (Nat × Timestamp)
  | .create c _ =>
    match s.calls[c]? with
    | some (.creating _ _ closes now) => closes.map fun found => (found.place, now)
    | _ => []
  | .close c now =>
    match s.calls[c]? with
    | some (.ending found) => [(found.place, now)]
    | _ => []
  | _ => []

/-- Every session of another identity that is open is one that the start has read. -/
def Call.seesAll (rows : List WorkSession) : Call → Bool
  | .creating .start sessionIn closes _ =>
    (openForAnother rows sessionIn).all fun found => found.place ∈ closes.map Found.place
  | _ => true

/-- A start creates its session when it has read every session of another
identity that is open. -/
def Seen (s : State) : Act → Prop
  | .create c _ => ∀ call ∈ s.calls[c]?, call.seesAll s.rows = true
  | _ => True

/-- No session is closed while a call resumes it. -/
def Apart (s : State) (act : Act) : Prop :=
  ∀ closing ∈ s.closes act, ∀ call ∈ s.calls, call.resumes ≠ some closing.1

/-- A session is closed while it is open, or again at the time it has ended. -/
def EndsOnce (s : State) (act : Act) : Prop :=
  ∀ closing ∈ s.closes act, ∀ row ∈ s.rows[closing.1]?,
    row.endedAt = none ∨ row.endedAt = some closing.2

/-- Only `resume_or_start_session` is called. -/
def ResumesOnly (_ : State) : Act → Prop
  | .start .. | .beginEnd .. => False
  | _ => True

instance (s : State) (act : Act) : Decidable (Seen s act) :=
  match act with
  | .create c _ =>
    inferInstanceAs (Decidable (∀ call ∈ s.calls[c]?, call.seesAll s.rows = true))
  | .start .. | .resume .. | .lock _ | .find .. | .select .. | .supersede _ | .touch _
  | .beginEnd .. | .close .. | .finish _ | .fail _ => .isTrue trivial

instance (s : State) (act : Act) : Decidable (Apart s act) :=
  inferInstanceAs (Decidable (∀ _ ∈ _, ∀ _ ∈ _, _))

instance (s : State) (act : Act) : Decidable (EndsOnce s act) :=
  inferInstanceAs (Decidable (∀ _ ∈ _, ∀ _ ∈ _, _))

instance (s : State) (act : Act) : Decidable (ResumesOnly s act) :=
  match act with
  | .start .. | .beginEnd .. => .isFalse id
  | .resume .. | .lock _ | .find .. | .select .. | .supersede _ | .touch _ | .create ..
  | .close .. | .finish _ | .fail _ => .isTrue trivial

/-- The open sessions of one task and machine are of one agent. -/
def State.OneIdentity (s : State) : Prop :=
  ∀ a ∈ s.rows, ∀ b ∈ s.rows, a.endedAt = none → b.endedAt = none → a.taskId = b.taskId →
    a.machineId = b.machineId → a.agentId = b.agentId

/-- A session that a call resumes is open. -/
def State.ResumesOpen (s : State) : Prop :=
  ∀ call ∈ s.calls, ∀ place, call.resumes = some place →
    ∃ row : WorkSession, s.rows[place]? = some row ∧ row.endedAt = none

/-- What has ended in `s` has ended at the same time in `t`. -/
def State.EndsKept (s t : State) : Prop :=
  ∀ (place : Nat) (row : WorkSession), s.rows[place]? = some row →
    ∀ time, row.endedAt = some time →
      ∃ row' : WorkSession, t.rows[place]? = some row' ∧ row'.endedAt = some time

end StudioOS.WorkSessions
