import StudioOS.Authz
import StudioOS.Library.Paging

/-!
# Sync — Model

`services/sync.py`: what changed since the last sync that concerns one task,
as a bounded answer.
-/

namespace StudioOS.Sync

open Authz

def startsWith (s p : String) : Bool := p.toList.isPrefixOf s.toList

def removePrefix (s p : String) : String :=
  if startsWith s p then String.ofList (s.toList.drop p.length) else s

/-- `str.isspace` of one character. -/
def isSpace (c : Char) : Bool :=
  let n := c.toNat
  (9 ≤ n && n ≤ 13) || (28 ≤ n && n ≤ 32) || n = 0x85 || n = 0xA0 || n = 0x1680 ||
    (0x2000 ≤ n && n ≤ 0x200A) || n = 0x2028 || n = 0x2029 || n = 0x202F || n = 0x205F || n = 0x3000

def strip (s : String) : String :=
  String.ofList (((s.toList.dropWhile isSpace).reverse.dropWhile isSpace).reverse)

/-- `str.rstrip("/")`. -/
def rstripSlash (s : String) : String :=
  String.ofList ((s.toList.reverse.dropWhile (· = '/')).reverse)

/-- A value of a JSONB payload. Numbers, lists and objects are given by
their Python `repr`, which is all that is read of them. -/
inductive JsonValue where
  | null
  | bool (b : Bool)
  | number (repr : String)
  | string (s : String)
  | container (repr : String)
deriving DecidableEq

/-- `str(value)`. -/
def JsonValue.pyStr : JsonValue → String
  | .null => "None"
  | .bool true => "True"
  | .bool false => "False"
  | .number repr => repr
  | .string s => s
  | .container repr => repr

/-- `bool(value)`. -/
def JsonValue.truthy : JsonValue → Bool
  | .null => false
  | .bool b => b
  | .number repr => repr ∉ ["0", "0.0", "-0.0"]
  | .string s => s ≠ ""
  | .container repr => repr ∉ ["[]", "\x7b\x7d"]

abbrev Payload := List (String × JsonValue)

def Payload.get (payload : Payload) (key : String) : JsonValue :=
  match payload.find? fun field => field.1 = key with
  | some field => field.2
  | none => .null

/-- `EventModel`. -/
structure Event where
  id : Uuid
  seq : Nat
  eventType : String
  taskId : Option Uuid
  machineId : Option Uuid
  payload : Payload
deriving DecidableEq

/-- `WorkSessionModel`. -/
structure WorkSession where
  id : Uuid
  taskId : Uuid
  machineId : Uuid
  endedAt : Option Timestamp
  lastActivityAt : Option Timestamp
  syncCursorSeq : Option Nat

/-- `ResourceClaimModel`. -/
structure Claim where
  id : Uuid
  taskId : Option Uuid
  resourcePath : String
  resourceType : String

structure CoordinationRefs where
  taskIds : List Uuid
  decisionIds : List Uuid
  paths : List String
deriving DecidableEq

structure CoordinationSignal where
  eventId : Uuid
  intent : String
  text : String
  refs : CoordinationRefs
  inReplyTo : Option Uuid
  fromSessionId : Option Uuid
deriving DecidableEq

inductive SyncWhy where
  | ownTask
  | decision
  | claimOverlap
  | roadmapDependency
  | coordination
deriving DecidableEq

inductive SyncItemKind where
  | event
  | claim
deriving DecidableEq

structure SyncItem where
  kind : SyncItemKind
  why : SyncWhy
  seq : Option Nat
  eventType : Option String
  taskId : Option Uuid
  claimId : Option Uuid
  resourcePath : Option String
  coordination : Option CoordinationSignal
deriving DecidableEq

/-- `overflow` is the counter of each `why`; an absent key counts 0. -/
structure SyncResult where
  nextCursor : Nat
  items : List SyncItem
  overflow : SyncWhy → Nat
  resync : Bool

/-- The dict `_signal` hands to `CoordinationSignal.model_validate`. -/
structure SignalInput where
  eventId : Uuid
  intent : String
  text : JsonValue
  refs : JsonValue
  inReplyTo : JsonValue
  fromSessionId : JsonValue

/-- What the code asks pydantic for. -/
structure Pydantic where
  /-- `CoordinationSignal.model_validate`; `none` is a `ValidationError`. -/
  validateSignal : SignalInput → Option CoordinationSignal
  /-- `len(item.model_dump_json())`. -/
  dumpLength : SyncItem → Nat

def syncDefaultLimit : Int := 50
def syncMaxLimit : Int := 200
def syncScanCap : Nat := 500
def defaultMaxChars : Int := 12000
def minMaxChars : Int := 1000
def maxMaxChars : Int := 50000
def maxFiles : Nat := 20
def maxPathChars : Nat := 500

/-! ## Matching -/

def decisionEventTypes : List String :=
  ["decision.proposed", "decision.created", "decision.accepted", "decision.superseded"]

def coordinationPrefix : String := "coordination."

def aiWorkPrefix : String := "ai_work."

/-- `_Candidate`: one matched element, before bounding. -/
structure Candidate where
  why : SyncWhy
  workId : Option String
  floorSeq : Option Nat
  item : SyncItem

def aiWorkId (event : Event) : Option String :=
  if startsWith event.eventType aiWorkPrefix then
    let workId := event.payload.get "ai_work_id"
    if workId.truthy then some workId.pyStr else none
  else none

/-- The `floors` of `_collapse_ai_work`: the floor of the first candidate
of the work entry. -/
def floorOf (candidates : List Candidate) (workId : String) : Option Nat :=
  (candidates.find? fun c => c.workId = some workId).bind Candidate.floorSeq

/-- The second loop of `_collapse_ai_work`: `latest[work_id] == index`
when no later candidate is of the same work entry. -/
def collapseLoop (candidates : List Candidate) : List Candidate → List Candidate
  | [] => []
  | c :: rest =>
    match c.workId with
    | none => c :: collapseLoop candidates rest
    | some workId =>
      if rest.any fun d => d.workId = some workId then collapseLoop candidates rest
      else { c with floorSeq := floorOf candidates workId } :: collapseLoop candidates rest

def collapseAiWork (candidates : List Candidate) : List Candidate :=
  collapseLoop candidates candidates

def signal (py : Pydantic) (event : Event) : Option CoordinationSignal :=
  let refs := event.payload.get "refs"
  py.validateSignal
    { eventId := event.id
      intent := removePrefix event.eventType coordinationPrefix
      text := event.payload.get "text"
      refs := if refs.truthy then refs else .container "\x7b\x7d"
      inReplyTo := event.payload.get "in_reply_to"
      fromSessionId := event.payload.get "from_session_id" }

/-- What `sync` knows of its caller when it matches the scan. `targets`
are the work sessions of the task. -/
structure SyncScope where
  myTaskId : Uuid
  mySessionId : Option Uuid
  myMachineId : Uuid
  related : List Uuid
  targets : List WorkSession

/-- `target_sessions.get(target_id)`: the acknowledged cursor, and
whether the session ended. -/
def SyncScope.targetState (scope : SyncScope) (targetId : String) : Option (Nat × Bool) :=
  (scope.targets.find? fun row => row.id.str = targetId).map fun row =>
    (row.syncCursorSeq.getD 0, row.endedAt.isSome)

def SyncScope.mySessionStr (scope : SyncScope) : Option String := scope.mySessionId.map Uuid.str

def isCoordination (event : Event) : Bool := startsWith event.eventType coordinationPrefix

/-- `str(payload.get("task_id")) == str(my_task_id)`. -/
def SyncScope.targetsTask (scope : SyncScope) (event : Event) : Bool :=
  (event.payload.get "task_id").pyStr = scope.myTaskId.str

/-- The signal waits for another live session of the task: it raises
`pending_floor` and `pending_count`. -/
def SyncScope.pendingElsewhere (scope : SyncScope) (event : Event) : Bool :=
  isCoordination event &&
    match event.payload.get "session_id" with
    | .null => false
    | targetSession =>
      let targetId := targetSession.pyStr
      scope.targetsTask event && scope.mySessionStr ≠ some targetId &&
        match scope.targetState targetId with
        | some (cursor, ended) => !ended && cursor < event.seq
        | none => false

/-- `targets_me`, after the target session has been looked at. -/
def SyncScope.targetsMe (scope : SyncScope) (event : Event) : Bool :=
  match event.payload.get "session_id" with
  | .null => scope.targetsTask event
  | targetSession =>
    let targetId := targetSession.pyStr
    scope.mySessionStr = some targetId ||
      (scope.targetsTask event &&
        match scope.targetState targetId with
        | some (cursor, ended) => ended && cursor < event.seq
        | none => false)

/-- The caller's own signal, addressed to no session or to itself. -/
def SyncScope.fromMyself (scope : SyncScope) (event : Event) : Bool :=
  match scope.mySessionStr with
  | none => false
  | some mySession =>
    event.payload.get "from_session_id" = .string mySession &&
      match event.payload.get "session_id" with
      | .null => true
      | targetSession => targetSession.pyStr = mySession

def eventCandidate (event : Event) (why : SyncWhy) (coordination : Option CoordinationSignal) :
    Candidate :=
  { why := why
    workId := aiWorkId event
    floorSeq := some event.seq
    item :=
      { kind := .event, why := why, seq := some event.seq, eventType := some event.eventType,
        taskId := event.taskId, claimId := none, resourcePath := none,
        coordination := coordination } }

/-- The body of the loop over the scan: the candidate the event becomes,
if it matches. -/
def SyncScope.classify (scope : SyncScope) (py : Pydantic) (event : Event) : Option Candidate :=
  if isCoordination event then
    if !scope.targetsMe event then none
    else if scope.fromMyself event then none
    else (signal py event).map fun s => eventCandidate event .coordination (some s)
  else if event.machineId = some scope.myMachineId then none
  else if event.eventType ∈ decisionEventTypes && event.taskId = some scope.myTaskId then
    some (eventCandidate event .decision none)
  else if event.taskId = some scope.myTaskId then some (eventCandidate event .ownTask none)
  else if event.taskId.any (· ∈ scope.related) then
    some (eventCandidate event .roadmapDependency none)
  else none

/-- `claims._conflicts`. -/
def pathsConflict (aPath aType bPath bType : String) : Bool :=
  aPath = bPath ||
    (aType = "folder" && startsWith bPath (rstripSlash aPath ++ "/")) ||
    (bType = "folder" && startsWith aPath (rstripSlash bPath ++ "/"))

def claimCandidate (claim : Claim) : Candidate :=
  { why := .claimOverlap
    workId := none
    floorSeq := none
    item :=
      { kind := .claim, why := .claimOverlap, seq := none, eventType := none,
        taskId := claim.taskId, claimId := some claim.id,
        resourcePath := some claim.resourcePath, coordination := none } }

/-- The live claims of other tasks that overlap the task's own claims or
the declared files, by path and id. -/
def overlappingClaims (myTaskId : Uuid) (files : List String) (live : List Claim) :
    List Candidate :=
  let mine := live.filter fun c => c.taskId = some myTaskId
  let overlaps (c : Claim) : Bool :=
    (mine.any fun m =>
      pathsConflict c.resourcePath c.resourceType m.resourcePath m.resourceType) ||
    files.any fun path => pathsConflict c.resourcePath c.resourceType path "file"
  let sorted := live.insertionSort fun a b =>
    a.resourcePath < b.resourcePath ∨ (a.resourcePath = b.resourcePath ∧ a.id.str ≤ b.id.str)
  (sorted.filter fun c => c.taskId ≠ some myTaskId && overlaps c).map claimCandidate

/-- The smaller of a bound and a seq; no bound is the weakest. -/
def lower (bound : Option Nat) (seq : Nat) : Option Nat :=
  match bound with
  | none => some seq
  | some b => some (min b seq)

/-- The variables of the bounding loop. -/
structure Bounds where
  items : List SyncItem
  overflow : SyncWhy → Nat
  chars : Nat
  nextCursor : Nat
  blocked : Option Nat

def Bounds.refuse (b : Bounds) (c : Candidate) : Bounds :=
  { b with
    overflow := fun why => if why = c.why then b.overflow why + 1 else b.overflow why
    blocked := match c.floorSeq with
      | some floor => lower b.blocked floor
      | none => b.blocked }

def Bounds.accept (b : Bounds) (c : Candidate) (cost : Nat) : Bounds :=
  { b with
    items := b.items ++ [c.item]
    chars := b.chars + cost
    nextCursor := match c.item.seq with
      | some seq => max b.nextCursor seq
      | none => b.nextCursor }

/-- The body of the bounding loop. -/
def Bounds.offer (py : Pydantic) (limit maxChars : Nat) (b : Bounds) (c : Candidate) : Bounds :=
  let cost := py.dumpLength c.item
  if b.items.length ≥ limit || b.chars + cost > maxChars then b.refuse c else b.accept c cost

/-- The answer of `sync`, from what it read: the scan past the effective
cursor, the live claims, and the declared files. -/
def answer (py : Pydantic) (scope : SyncScope) (effective : Nat) (scanned : List Event)
    (live : List Claim) (files : List String) (limit maxChars : Nat) : SyncResult :=
  let truncated := scanned.length = syncScanCap
  let pending := scanned.filter scope.pendingElsewhere
  let matched := collapseAiWork (scanned.filterMap (scope.classify py)) ++
    overlappingClaims scope.myTaskId files live
  let start : Bounds :=
    { items := []
      overflow := fun why => if why = .coordination then pending.length else 0
      chars := 0
      nextCursor := match scanned.getLast? with
        | some last => if truncated then max effective last.seq else effective
        | none => effective
      blocked := pending.foldl (fun bound event => lower bound event.seq) none }
  let b := matched.foldl (Bounds.offer py limit maxChars) start
  { nextCursor := match b.blocked with
      | some floor => min b.nextCursor (floor - 1)
      | none => b.nextCursor
    items := b.items
    overflow := b.overflow
    resync := truncated }

/-! ## The service -/

structure Task where
  id : Uuid
  projectId : Uuid

/-- What the service reads and writes. `events` is the committed log of a
project, `related` the answer of `_related_task_ids`, `claims` the active
claims of a project. -/
structure Store where
  sessions : List WorkSession
  tasks : Uuid → Option Task
  agents : Uuid → Option Agent
  events : Uuid → List Event
  related : Uuid → Uuid → List Uuid
  claims : Uuid → List Claim

/-- The keyword arguments of `sync`. -/
structure SyncQuery where
  sessionId : Option Uuid := none
  agentId : Option Uuid := none
  taskId : Option Uuid := none
  ack : Option Int := none
  files : List String := []
  limit : Int := syncDefaultLimit
  maxChars : Int := defaultMaxChars

def invalid (message : String) : HttpError :=
  { status := 422, detail := [("error_code", "invalid_sync_input"), ("message", message)] }

def sessionNotFound (message : String) : HttpError :=
  { status := 404, detail := [("error_code", "session_not_found"), ("message", message)] }

def taskNotFound : HttpError :=
  { status := 404, detail := [("error_code", "not_found"), ("message", "task not found")] }

def actorNotOwned : HttpError :=
  { status := 409
    detail := [("error_code", "actor_not_owned"),
      ("message", "agent_id must be an agent attached to the authenticated machine")] }

/-- `list_events_after`, past its access check. -/
def listEventsAfter (st : Store) (projectId : Uuid) (afterSeq : Option Nat) (limit : Nat) :
    List Event :=
  Paging.page Event.seq afterSeq limit (st.events projectId)

def readTask (st : Store) (principal : Principal) (taskId : Uuid) :
    Except HttpError (Option Task) :=
  match st.tasks taskId with
  | none => .ok none
  | some task => do
    ensureProjectAccess principal task.projectId "read"
    return some task

/-- `UPDATE work_sessions ... WHERE id = :id`. -/
def Store.updateSession (st : Store) (sessionId : Uuid) (f : WorkSession → WorkSession) : Store :=
  { st with sessions := st.sessions.map fun row => if row.id = sessionId then f row else row }

/-- `sessions.ack_sync_cursor`: `GREATEST`, which skips a `NULL`. -/
def Store.ackSyncCursor (st : Store) (sessionId : Uuid) (seq : Nat) : Store :=
  st.updateSession sessionId fun row =>
    { row with syncCursorSeq := some (max (row.syncCursorSeq.getD 0) seq) }

def Store.touchSession (st : Store) (sessionId : Uuid) (now : Timestamp) : Store :=
  st.updateSession sessionId fun row => { row with lastActivityAt := some now }

/-- The checks of the arguments; the declared files, cleaned. -/
def SyncQuery.check (q : SyncQuery) : Except HttpError (List String) := do
  if ¬ (1 ≤ q.limit ∧ q.limit ≤ syncMaxLimit) then
    throw (invalid "limit must be between 1 and 200")
  if ¬ (minMaxChars ≤ q.maxChars ∧ q.maxChars ≤ maxMaxChars) then
    throw (invalid "max_chars must be between 1000 and 50000")
  let cleanFiles := (q.files.map strip).filter (· ≠ "")
  if cleanFiles.length > maxFiles then
    throw (invalid "at most 20 files")
  if cleanFiles.any (·.length > maxPathChars) then
    throw (invalid "each file must be at most 500 characters")
  if q.ack.any (· < 0) then
    throw (invalid "ack must be a non-negative seq")
  if q.sessionId.isNone && (q.agentId.isNone || q.taskId.isNone) then
    throw (invalid "session_id or (agent_id and task_id) is required")
  return cleanFiles

/-- The work session of the call, when one is named: it exists and is open. -/
def Store.liveSession (st : Store) (sessionId : Option Uuid) :
    Except HttpError (Option WorkSession) :=
  match sessionId with
  | none => .ok none
  | some id =>
    match st.sessions.find? fun row => row.id = id with
    | some row =>
      if row.endedAt.isSome then .error (sessionNotFound "unknown or ended session")
      else .ok (some row)
    | none => .error (sessionNotFound "unknown or ended session")

/-- `max(stored, ack)`. -/
def effectiveCursor (stored : Option Nat) (ack : Option Int) : Nat :=
  match ack with
  | none => stored.getD 0
  | some ack => max (stored.getD 0) ack.toNat

/-- The one write of `sync`: the acknowledged cursor, and the activity of
the session. -/
def Store.acknowledge (st : Store) (workSession : Option WorkSession) (effective : Nat)
    (now : Timestamp) : Store :=
  match workSession with
  | none => st
  | some row =>
    let st' := if row.syncCursorSeq = some effective then st
      else st.ackSyncCursor row.id effective
    st'.touchSession row.id now

/-- What the loop over the scan reads of the store. -/
def Store.scope (st : Store) (principal : Principal) (task : Task) (sessionId : Option Uuid) :
    SyncScope :=
  { myTaskId := task.id
    mySessionId := sessionId
    myMachineId := principal.machine.id
    related := st.related task.projectId task.id
    targets := st.sessions.filter fun row => row.taskId = task.id }

/-- The task of the work session, or the one the call names. -/
def Store.readTaskOf (st : Store) (principal : Principal) (q : SyncQuery)
    (workSession : Option WorkSession) : Except HttpError Task :=
  let taskId := match workSession with
    | some row => some row.taskId
    | none => q.taskId
  match taskId with
  | none => .error taskNotFound
  | some id => do
    match ← readTask st principal id with
    | some task => .ok task
    | none => .error taskNotFound

/-- Who may sync: the machine of the session, or the machine of the agent. -/
def Store.ensureMaySync (st : Store) (principal : Principal) (q : SyncQuery)
    (workSession : Option WorkSession) : Except HttpError Unit :=
  match workSession with
  | some row => ensureMachineOwned principal (some row.machineId) "session" "sync"
  | none => do
    ensureCanWrite principal "sync"
    if ownsAgent (q.agentId.bind st.agents) principal.machine then .ok ()
    else .error actorNotOwned

def sync (py : Pydantic) (st : Store) (now : Timestamp) (principal : Principal) (q : SyncQuery) :
    Except HttpError (SyncResult × Store) := do
  let cleanFiles ← q.check
  let workSession ← st.liveSession q.sessionId
  let task ← st.readTaskOf principal q workSession
  st.ensureMaySync principal q workSession
  let effective := effectiveCursor (workSession.bind WorkSession.syncCursorSeq) q.ack
  let st' := st.acknowledge workSession effective now
  let scope := st'.scope principal task (workSession.map WorkSession.id)
  let scanned := listEventsAfter st' task.projectId (some effective) syncScanCap
  return (answer py scope effective scanned (st'.claims task.projectId) cleanFiles
    q.limit.toNat q.maxChars.toNat, st')

end StudioOS.Sync
