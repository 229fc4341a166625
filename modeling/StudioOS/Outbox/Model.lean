import Mathlib.Data.List.Sort
import StudioOS.Base

/-!
# Outbox — Model

The offline queue of the client: the SQLite store with its three pending tables and `dead_letter`,
and the `OutboxReplayer`. A pass of `replay_ready` lists the rows that are ready, then sends them
one by one; between a send and its answer anything else may happen, also another pass.

Every statement reads the clock on its own, and a reading may be anything.
-/

namespace StudioOS.Outbox

/-- The classes of `StudioApiError` that the replayer tells apart. -/
inductive ErrorClass where
  | transport
  | server
  | conflict
  | forbidden
  | other
deriving DecidableEq

/-- `StudioApiError`, with `details.get("resource")`. -/
structure StudioApiError where
  errorClass : ErrorClass
  statusCode : Nat
  errorCode : Option String
  message : String
  resource : Option String

/-- `a or b` of two texts. -/
def orText (a : Option String) (b : String) : String :=
  match a with
  | some text => if text = "" then b else text
  | none => b

/-- `str(error)`. -/
def StudioApiError.text (error : StudioApiError) : String :=
  toString error.statusCode ++ " " ++ orText error.errorCode error.message

def isRetryable (error : StudioApiError) : Bool :=
  match error.errorClass with
  | .transport | .server => true
  | .conflict => error.errorCode = some "idempotency_key_in_progress"
  | .forbidden | .other => error.statusCode = 429

inductive OutboxTable where
  | events
  | mutations
  | markers
deriving DecidableEq

/-- A row of a pending table. `extra` are the columns beyond the common ones,
`payload` the members of `payload_json`, values as `str` renders them.
`serial` is no column: it numbers the enqueue that inserted the row. -/
structure PendingRow where
  id : String
  attemptCount : Nat
  nextAttemptAt : Timestamp
  createdAt : Timestamp
  lastError : Option String
  payload : List (String × String)
  extra : List (String × String)
  serial : Nat
deriving DecidableEq

/-- A row of `dead_letter`; `payload_json` keeps the whole pending row. -/
structure DeadLetter where
  id : String
  sourceTable : OutboxTable
  payload : PendingRow
  error : String
  failedAt : Timestamp

/-- The tables, in insertion order. -/
structure Store where
  pending : OutboxTable → List PendingRow
  deadLetter : List DeadLetter

def Store.empty : Store := { pending := fun _ => [], deadLetter := [] }

def Store.setPending (store : Store) (table : OutboxTable) (rows : List PendingRow) : Store :=
  { store with pending := Function.update store.pending table rows }

/-- `INSERT OR IGNORE`: the id is queued already. -/
def Store.queued (store : Store) (table : OutboxTable) (id : String) : Bool :=
  (store.pending table).any fun row => row.id = id

def newRow (id : String) (payload extra : List (String × String)) (serial : Nat)
    (now : Timestamp) : PendingRow :=
  { id := id, attemptCount := 0, nextAttemptAt := now, createdAt := now, lastError := none
    payload := payload, extra := extra, serial := serial }

/-- `enqueue_event`, `enqueue_mutation`, `enqueue_marker`. -/
def Store.enqueue (store : Store) (table : OutboxTable) (id : String)
    (payload extra : List (String × String)) (serial : Nat) (now : Timestamp) : Store :=
  if store.queued table id then store
  else store.setPending table (store.pending table ++ [newRow id payload extra serial now])

/-- The first `limit` rows; a negative `LIMIT` is none. -/
def takeLimit (limit : Int) (rows : List PendingRow) : List PendingRow :=
  if limit < 0 then rows else rows.take limit.toNat

def Store.listPending (store : Store) (table : OutboxTable) (limit : Int) (now : Timestamp) :
    List PendingRow :=
  takeLimit limit <| ((store.pending table).filter fun row => row.nextAttemptAt ≤ now).insertionSort
    fun a b => a.createdAt ≤ b.createdAt

def Store.markSucceeded (store : Store) (table : OutboxTable) (id : String) : Store :=
  store.setPending table ((store.pending table).filter fun row => row.id ≠ id)

/-- `mark_failed`; `delay` is what `delay_for` drew. -/
def Store.markFailed (store : Store) (table : OutboxTable) (id error : String) (delay : Timestamp)
    (now : Timestamp) : Store :=
  store.setPending table ((store.pending table).map fun row =>
    if row.id = id then
      { row with
        attemptCount := row.attemptCount + 1
        nextAttemptAt := now + delay
        lastError := some error }
    else row)

/-- `sqlite3.IntegrityError`. -/
inductive StoreError where
  | uniqueDeadLetterId

def Store.moveToDeadLetter (store : Store) (table : OutboxTable) (id error : String)
    (now : Timestamp) : Except StoreError Store :=
  match (store.pending table).find? fun row => row.id = id with
  | none => .ok store
  | some row =>
    if store.deadLetter.any fun letter => letter.id = id then .error .uniqueDeadLetterId
    else
      .ok (Store.markSucceeded
        { store with deadLetter := store.deadLetter ++
            [{ id := id, sourceTable := table, payload := row, error := error, failedAt := now }] }
        table id)

def isProjectAccessDenied (error : StudioApiError) : Bool :=
  error.errorClass = .forbidden && error.resource = some "project"

/-- `(?:/|$)`, and `(?:/|$|\?)` with the further character. -/
def endsSegment (more : List Char) : List Char → Bool
  | [] | ['\n'] => true
  | c :: _ => c = '/' || c ∈ more

/-- What follows `pattern` at the start of a text. -/
def afterPrefix : List Char → List Char → Option (List Char)
  | [], rest => some rest
  | p :: pattern, c :: rest => if p = c then afterPrefix pattern rest else none
  | _ :: _, [] => none

def isHexOrDash (c : Char) : Bool :=
  c.isDigit || ('a' ≤ c && c ≤ 'f') || ('A' ≤ c && c ≤ 'F') || c = '-'

/-- `_PROJECT_PATH_RE.search`. -/
def projectInPath : List Char → Option String
  | [] => none
  | c :: rest =>
    match afterPrefix "/projects/".toList (c :: rest) with
    | some tail =>
      if (tail.take 36).length = 36 && (tail.take 36).all isHexOrDash &&
          endsSegment ['?'] (tail.drop 36) then
        some (String.ofList (tail.take 36))
      else projectInPath rest
    | none => projectInPath rest

def PendingRow.path (row : PendingRow) : String := (row.extra.lookup "path").getD ""

def isVaultNoteRow (table : OutboxTable) (row : PendingRow) : Bool :=
  table = .mutations &&
    (afterPrefix "/api/v1/vault/notes".toList row.path.toList).any (endsSegment [])

def rowProjectId (table : OutboxTable) (row : PendingRow) : Option String :=
  let candidate := orText (row.extra.lookup "project_id")
    ((row.payload.lookup "project_id").getD "")
  if candidate ≠ "" then some candidate
  else if table = .mutations then projectInPath row.path.toList
  else none

/-- `ReplayOutcome` of a pass past the identity check. -/
structure ReplayOutcome where
  succeeded : Nat
  deadLettered : Nat
  stoppedOnTransientError : Bool
  projectAccessDenied : List String
  vaultConflicts : List String
  vaultSecretRejections : List String

def ReplayOutcome.none : ReplayOutcome :=
  { succeeded := 0, deadLettered := 0, stoppedOnTransientError := false
    projectAccessDenied := [], vaultConflicts := [], vaultSecretRejections := [] }

/-- The diagnosis of a definitive error: the outcome with it, and the
`dead_letter.error`. -/
def diagnose (outcome : ReplayOutcome) (table : OutboxTable) (row : PendingRow)
    (error : StudioApiError) : ReplayOutcome × String :=
  if isProjectAccessDenied error then
    let project := orText (rowProjectId table row) "unknown"
    ({ outcome with
        projectAccessDenied :=
          if project ∈ outcome.projectAccessDenied then outcome.projectAccessDenied
          else outcome.projectAccessDenied ++ [project] },
      "project_access_denied project=" ++ project ++ ": " ++ error.text)
  else if isVaultNoteRow table row && error.errorClass = .conflict &&
      error.errorCode = some "version_conflict" then
    ({ outcome with vaultConflicts := outcome.vaultConflicts ++ [row.id] },
      "vault_version_conflict note=" ++ row.id ++ ": " ++ error.text)
  else if isVaultNoteRow table row && error.statusCode = 422 &&
      error.errorCode = some "secret_detected" then
    ({ outcome with vaultSecretRejections := outcome.vaultSecretRejections ++ [row.id] },
      "vault_secret_detected note=" ++ row.id ++ ": " ++ error.text)
  else (outcome, error.text)

/-- A pass in its loop: the rows it has not come past, the first of them sent
or not. -/
structure Pass where
  remaining : List (OutboxTable × PendingRow)
  sending : Bool
  outcome : ReplayOutcome

inductive PassState where
  | running (pass : Pass)
  | returned (outcome : ReplayOutcome)
  | raised (error : StoreError)
  /-- Cancelled, or gone with the process. -/
  | cancelled

/-- What a restart leaves of a pass. -/
def PassState.stop : PassState → PassState
  | .running _ => .cancelled
  | other => other

/-- `ready`: both tables listed, events first, sorted by `created_at`. -/
def Store.ready (store : Store) (limit : Int) (eventsNow mutationsNow : Timestamp) :
    List (OutboxTable × PendingRow) :=
  ((store.listPending .events limit eventsNow).map (OutboxTable.events, ·) ++
    (store.listPending .mutations limit mutationsNow).map (OutboxTable.mutations, ·)).insertionSort
      fun a b => a.2.createdAt ≤ b.2.createdAt

/-- The loop goes on, or the pass returns. -/
def PassState.next (remaining : List (OutboxTable × PendingRow)) (outcome : ReplayOutcome) :
    PassState :=
  match remaining with
  | [] => .returned outcome
  | _ :: _ => .running { remaining := remaining, sending := false, outcome := outcome }

/-- The store, the passes in the order they began, and what the run has come
to: how many rows were inserted, and which ones the server acknowledged. -/
structure State where
  store : Store
  passes : List PassState
  enqueued : Nat
  acknowledged : List Nat

def State.initial : State :=
  { store := .empty, passes := [], enqueued := 0, acknowledged := [] }

inductive Act where
  | enqueue (table : OutboxTable) (id : String) (payload extra : List (String × String))
      (now : Timestamp)
  | begin (limit : Int) (eventsNow mutationsNow : Timestamp)
  | send (i : Nat)
  | answer (i : Nat) (result : Except StudioApiError Unit) (delay now : Timestamp)
  | cancel (i : Nat)
  | restart

/-- The loop body past its send. -/
def State.answer (s : State) (i : Nat) (pass : Pass) (table : OutboxTable) (row : PendingRow)
    (rest : List (OutboxTable × PendingRow)) (result : Except StudioApiError Unit)
    (delay now : Timestamp) : State :=
  match result with
  | .ok () =>
    { s with
      store := s.store.markSucceeded table row.id
      passes := s.passes.set i
        (.next rest { pass.outcome with succeeded := pass.outcome.succeeded + 1 })
      acknowledged := s.acknowledged ++ [row.serial] }
  | .error error =>
    if isRetryable error then
      { s with
        store := s.store.markFailed table row.id error.text delay now
        passes := s.passes.set i
          (.returned { pass.outcome with stoppedOnTransientError := true }) }
    else
      let diagnosis := diagnose pass.outcome table row error
      match s.store.moveToDeadLetter table row.id diagnosis.2 now with
      | .error e => { s with passes := s.passes.set i (.raised e) }
      | .ok store =>
        { s with
          store := store
          passes := s.passes.set i
            (.next rest { diagnosis.1 with deadLettered := diagnosis.1.deadLettered + 1 }) }

def step (s : State) : Act → Option State
  | .enqueue table id payload extra now =>
    some
      { s with
        store := s.store.enqueue table id payload extra s.enqueued now
        enqueued := if s.store.queued table id then s.enqueued else s.enqueued + 1 }
  | .begin limit eventsNow mutationsNow =>
    some
      { s with
        passes := s.passes ++ [.next (s.store.ready limit eventsNow mutationsNow) .none] }
  | .send i =>
    match s.passes[i]? with
    | some (.running pass) =>
      if pass.sending then none
      else some { s with passes := s.passes.set i (.running { pass with sending := true }) }
    | _ => none
  | .answer i result delay now =>
    match s.passes[i]? with
    | some (.running pass) =>
      match pass.sending, pass.remaining with
      | true, (table, row) :: rest => some (s.answer i pass table row rest result delay now)
      | _, _ => none
    | _ => none
  | .cancel i =>
    match s.passes[i]? with
    | some (.running _) => some { s with passes := s.passes.set i .cancelled }
    | _ => none
  | .restart => some { s with passes := s.passes.map PassState.stop }

end StudioOS.Outbox
