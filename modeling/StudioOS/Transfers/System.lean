import StudioOS.Library.Runs
import StudioOS.Transfers.Model

/-!
# System — transfer requests by any clients

Every request is a transaction of its own. It loads a transfer, asks
storage, and commits the columns it has changed; a creation waits for the
advisory lock of its quota bucket, adds up the bucket and commits its row.
Between any two of these steps other requests take theirs.
-/

namespace StudioOS.Transfers

open Authz

inductive Request where
  | create (transferIn : TransferCreate)
  | initiate (id : Uuid) (contentMd5 : Option String)
  | refreshParts (id : Uuid) (uploadId : String) (partSize : Option Int)
    (numbers : Option (List Int))
  | complete (id : Uuid) (body : UploadCompleteRequest)
  | downloadUrl (id : Uuid)
  | markDownloaded (id : Uuid)
  | delete (id : Uuid)
  /-- The retention worker. -/
  | expire

inductive Phase where
  | start
  /-- A creation holds the lock of its bucket. -/
  | locked (projectSlug : String)
  /-- A creation is admitted; before the commit. -/
  | admitted (row : TransferRow)
  | loaded (row : TransferRow)
  /-- The expired transfers the worker has still to delete. -/
  | expiring (rows : List TransferRow)
  | done (reply : Except HttpError Reply)

structure Caller where
  principal : Principal
  request : Request
  phase : Phase

structure State where
  transfers : List TransferRow
  /-- `pg_advisory_xact_lock`, by key. -/
  locks : Int → Option Nat
  callers : List Caller

def State.initial : State := { transfers := [], locks := fun _ => none, callers := [] }

structure Env where
  settings : Settings
  /-- The `hashtext` of Postgres. -/
  hashtext : String → Int

def Env.key (env : Env) (projectId : Option Uuid) : Int := env.hashtext (bucketKey projectId)

inductive Act where
  | call (principal : Principal) (request : Request)
  /-- A creation finds its project and takes the lock; `projects` gives slugs. -/
  | lock (c : Nat) (projects : Uuid → Option String)
  /-- A creation adds up its bucket. -/
  | admits (c : Nat) (builds : Uuid → Option BuildRow) (draw : Draw)
  | commit (c : Nat)
  /-- `get_transfer`, or the SELECT of `expire_transfers`. -/
  | load (c : Nat) (now : Timestamp)
  /-- The rest of a request, while storage answers so. -/
  | serve (c : Nat) (storage : Storage) (now : Timestamp)

def State.put (s : State) (c : Nat) (k : Caller) : State :=
  { s with callers := s.callers.set c k }

/-- The transaction ends: its locks are gone. -/
def State.finish (s : State) (c : Nat) (k : Caller) (reply : Except HttpError Reply) : State :=
  { s.put c { k with phase := .done reply } with
    locks := fun key => if s.locks key = some c then none else s.locks key }

def State.row (s : State) (id : Uuid) : Option TransferRow := s.transfers.find? (·.id = id)

/-- The project of a creation: `get_project`. -/
def getProjectSlug (principal : Principal) (projects : Uuid → Option String) :
    Option Uuid → Except HttpError String
  | none => .ok "unscoped"
  | some projectId => do
    ensureProjectAccess principal projectId "read"
    match projects projectId with
    | some slug => .ok slug
    | none =>
      .error
        { status := 404
          detail := [("error_code", "not_found"),
            ("message", "project " ++ projectId.str ++ " not found")] }

/-- A creation, up to the advisory lock. -/
def openCreate (settings : Settings) (principal : Principal) (projects : Uuid → Option String)
    (transferIn : TransferCreate) : Except HttpError String := do
  authorizeCreate principal transferIn.projectId
  let slug ← getProjectSlug principal projects transferIn.projectId
  authorizeCreate principal transferIn.projectId
  enforceSize settings transferIn.sizeBytes
  return slug

/-- A creation under the lock, up to the flush. -/
def admitCreate (settings : Settings) (principal : Principal) (transfers : List TransferRow)
    (builds : Uuid → Option BuildRow) (transferIn : TransferCreate) (slug : String) (draw : Draw) :
    Except HttpError TransferRow := do
  let consumed := computeConsumption transfers transferIn.projectId
  enforceQuota settings transferIn.projectId consumed transferIn.sizeBytes
  checkBuild builds transferIn
  return newTransfer principal transferIn slug draw

def State.lock (env : Env) (s : State) (c : Nat) (k : Caller) (projects : Uuid → Option String) :
    Option State :=
  match k.phase, k.request with
  | .start, .create transferIn =>
    match openCreate env.settings k.principal projects transferIn with
    | .error error => some (s.finish c k (.error error))
    | .ok slug =>
      let key := env.key transferIn.projectId
      -- a lock that another transaction holds is waited for
      if s.locks key = none then
        some
          { s.put c { k with phase := .locked slug } with
            locks := fun other => if other = key then some c else s.locks other }
      else none
  | _, _ => none

def State.admits (env : Env) (s : State) (c : Nat) (k : Caller) (builds : Uuid → Option BuildRow)
    (draw : Draw) : Option State :=
  match k.phase, k.request with
  | .locked slug, .create transferIn =>
    match admitCreate env.settings k.principal s.transfers builds transferIn slug draw with
    | .error error => some (s.finish c k (.error error))
    | .ok row => some (s.put c { k with phase := .admitted row })
  | _, _ => none

/-- The primary key and the unique columns. -/
def State.unique (s : State) (row : TransferRow) : Bool :=
  s.transfers.all fun other =>
    other.id ≠ row.id ∧ other.transferCode ≠ row.transferCode ∧ other.objectKey ≠ row.objectKey

def State.commit (s : State) (c : Nat) (k : Caller) : Option State :=
  match k.phase with
  | .admitted row =>
    if s.unique row then
      some { s.finish c k (.ok (.transfer row)) with transfers := s.transfers ++ [row] }
    else some (s.finish c k (.error unhandled))
  | _ => none

def Request.transferId : Request → Option Uuid
  | .create _ | .expire => none
  | .initiate id _ | .refreshParts id .. | .complete id _ | .downloadUrl id | .markDownloaded id
  | .delete id => some id

def transferNotFound : HttpError :=
  { status := 404, detail := [("detail", "transfer not found")] }

def getTransfer (s : State) (principal : Principal) (id : Uuid) : Except HttpError TransferRow :=
  match s.row id with
  | none => .error transferNotFound
  | some transfer => do
    ensureTransferScope principal transfer.projectId "read"
    ensureTransferAccess principal transfer "read"
    return transfer

def State.load (s : State) (c : Nat) (k : Caller) (now : Timestamp) : Option State :=
  match k.phase, k.request with
  | .start, .create _ => none
  | .start, .expire => some (s.put c { k with phase := .expiring (expiredTransfers s.transfers now) })
  | .start, request =>
    match request.transferId with
    | none => none
    | some id =>
      match getTransfer s k.principal id with
      | .error error => some (s.finish c k (.error error))
      | .ok transfer => some (s.put c { k with phase := .loaded transfer })
  | _, _ => none

/-- A request on a loaded transfer: the row before the flush, and what the
route returns of the row as it is read back. -/
def serveLoaded (env : Env) (k : Caller) (transfer : TransferRow) (storage : Storage)
    (now : Timestamp) : Except HttpError (TransferRow × (TransferRow → Reply)) :=
  match k.request with
  | .initiate _ contentMd5 => do
    let (assigned, reply) ←
      initiateUpload k.principal storage env.settings transfer contentMd5 now
    return (assigned, fun _ => reply)
  | .refreshParts _ uploadId partSize numbers => do
    let (assigned, reply) ←
      refreshUploadParts k.principal storage env.settings transfer uploadId partSize numbers now
    return (assigned, fun _ => reply)
  | .complete _ body => do
    let assigned ← completeUpload k.principal storage transfer body now
    return (assigned, .transfer)
  | .downloadUrl _ => .ok (transfer, fun _ => getDownloadUrl storage env.settings transfer now)
  | .markDownloaded _ => .ok (markDownloaded transfer now, .transfer)
  | .delete _ => do
    let assigned ← deleteTransfer k.principal storage transfer now
    return (assigned, fun _ => .noContent)
  | .create _ | .expire => .error unhandled

/-- The columns the service writes, as the flush leaves them. -/
def TransferRow.flush (loaded assigned current : TransferRow) : TransferRow :=
  { current with
    sha256 := flushed loaded.sha256 assigned.sha256 current.sha256
    contentMd5 := flushed loaded.contentMd5 assigned.contentMd5 current.contentMd5
    status := flushed loaded.status assigned.status current.status
    uploadedAt := flushed loaded.uploadedAt assigned.uploadedAt current.uploadedAt
    downloadedAt := flushed loaded.downloadedAt assigned.downloadedAt current.downloadedAt
    deletedAt := flushed loaded.deletedAt assigned.deletedAt current.deletedAt }

def State.flush (s : State) (loaded assigned : TransferRow) : State :=
  { s with transfers := s.transfers.map fun row =>
      if row.id = loaded.id then TransferRow.flush loaded assigned row else row }

def State.serve (env : Env) (s : State) (c : Nat) (k : Caller) (storage : Storage)
    (now : Timestamp) : Option State :=
  match k.phase with
  | .loaded transfer =>
    match serveLoaded env k transfer storage now with
    | .error error => some (s.finish c k (.error error))
    | .ok (assigned, reply) =>
      let t := s.flush transfer assigned
      some (t.finish c k (.ok (reply ((t.row transfer.id).getD assigned))))
  | .expiring [] => some (s.finish c k (.ok .noContent))
  | .expiring (transfer :: rest) =>
    match doDelete storage transfer now with
    | .error error => some (s.finish c k (.error error))
    | .ok assigned => some ((s.flush transfer assigned).put c { k with phase := .expiring rest })
  | _ => none

def step (env : Env) (s : State) : Act → Option State
  | .call principal request =>
    some { s with callers := s.callers ++ [{ principal, request, phase := .start }] }
  | .lock c projects => s.callers[c]?.bind fun k => s.lock env c k projects
  | .admits c builds draw => s.callers[c]?.bind fun k => s.admits env c k builds draw
  | .commit c => s.callers[c]?.bind fun k => s.commit c k
  | .load c now => s.callers[c]?.bind fun k => s.load c k now
  | .serve c storage now => s.callers[c]?.bind fun k => s.serve env c k storage now

/-- The status that a request assigns to a transfer that may be deleted. -/
def Request.revives : Request → Option TransferStatus
  | .complete .. => some .ready
  | .markDownloaded _ => some .downloaded
  | _ => none

/-- The transfer a request deletes next. -/
def Caller.deletes (k : Caller) : Option TransferRow :=
  match k.phase, k.request with
  | .loaded row, .delete _ => some row
  | .expiring (row :: _), _ => some row
  | _, _ => none

/-- The transfer and the status that a request gives it next. -/
def Caller.revives (k : Caller) : Option (TransferRow × TransferStatus) :=
  match k.phase with
  | .loaded row => k.request.revives.map (row, ·)
  | _ => none

/-- No request gives a new status to a transfer that is deleted, and no
transfer of negative size is deleted. -/
def Sound (s : State) : Act → Prop
  | .serve c _ _ => ∀ k ∈ s.callers[c]?,
      (∀ loaded ∈ k.revives, loaded.1.status ≠ loaded.2 →
        ∀ row ∈ s.transfers, row.id = loaded.1.id → row.status ≠ .deleted) ∧
      (∀ loaded ∈ k.deletes, ∀ row ∈ s.transfers, row.id = loaded.id → 0 ≤ row.sizeBytes)
  | _ => True

instance (s : State) (act : Act) : Decidable (Sound s act) :=
  match act with
  | .serve c _ _ => inferInstanceAs (Decidable (∀ k ∈ s.callers[c]?,
      (∀ loaded ∈ k.revives, loaded.1.status ≠ loaded.2 →
        ∀ row ∈ s.transfers, row.id = loaded.1.id → row.status ≠ .deleted) ∧
      (∀ loaded ∈ k.deletes, ∀ row ∈ s.transfers, row.id = loaded.id → 0 ≤ row.sizeBytes)))
  | .call .. | .lock .. | .admits .. | .commit _ | .load .. => .isTrue trivial

end StudioOS.Transfers
