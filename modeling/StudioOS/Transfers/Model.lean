import Mathlib.Algebra.Order.Ring.Int
import Mathlib.Algebra.Order.Ring.Nat
import StudioOS.Authz

/-!
# Model — the transfer service

`services/transfers.py`, function by function, with the parts of
`services/authz.py` and `storage/provider.py` it calls. Object storage is
outside: a `Storage` is what it answers while a request runs. A function
that changes a transfer returns the row as the ORM object stands before
the flush.
-/

namespace StudioOS.Transfers

open Authz

inductive TransferStatus where
  | created
  | uploading
  | ready
  | downloaded
  | expired
  | deleted
deriving DecidableEq

inductive TransferCategory where
  | temporary
  | build
  | asset
  | rawRecording

structure TransferRow where
  id : Uuid
  transferCode : String
  senderUserId : Uuid
  recipientUserId : Option Uuid
  projectId : Option Uuid
  taskId : Option Uuid
  buildId : Option Uuid
  category : TransferCategory
  filename : String
  objectKey : String
  contentType : String
  sizeBytes : Int
  sha256 : Option String
  contentMd5 : Option String
  status : TransferStatus
  expiresAt : Option Timestamp
  createdAt : Timestamp
  uploadedAt : Option Timestamp
  downloadedAt : Option Timestamp
  deletedAt : Option Timestamp

structure TransferCreate where
  recipientUserId : Option Uuid
  projectId : Option Uuid
  taskId : Option Uuid
  buildId : Option Uuid
  category : TransferCategory
  filename : String
  contentType : String
  sizeBytes : Int

structure UploadCompleteRequest where
  sizeBytes : Int
  sha256 : String
  uploadId : Option String
  parts : Option (List (Int × String))

structure Settings where
  transferMaxSizeBytes : Int
  transferProjectQuotaBytes : Int
  presignedUrlTtlSeconds : Nat

structure BuildRow where
  projectId : Uuid

/-- What a route returns. -/
inductive Reply where
  | transfer (row : TransferRow)
  /-- `UploadInitiateResponse` of a single PUT. -/
  | putUrl (transferId : Uuid) (uploadUrl : String)
  /-- `UploadInitiateResponse` of a multipart upload. -/
  | partUrls (transferId : Uuid) (uploadId : String) (urls : List (Int × String)) (partSize : Int)
      (expiresAt : Timestamp)
  /-- `UploadPartsRefreshResponse`. -/
  | refreshed (transferId : Uuid) (uploadId : String) (partSize : Int)
      (urls uploaded : List (Int × String)) (expiresAt : Timestamp)
  | downloadUrl (transferId : Uuid) (url : String) (expiresAt : Timestamp)
  | noContent

inductive StorageError where
  /-- `ClientError`, with its `Error.Code`. -/
  | client (code : String)
  | botoCore
deriving DecidableEq

structure Head where
  contentLength : Option Int
  etag : Option String

structure Storage where
  presignPut : String → String → String → String
  presignGet : String → String
  presignUploadPart : String → String → Int → String
  createMultipartUpload : String → String → Except StorageError String
  listParts : String → String → Except StorageError (List (Int × String))
  completeMultipartUpload : String → String → List (Int × String) → Except StorageError Unit
  headObject : String → Except StorageError Head
  /-- The key and the upload id of every upload under a prefix. -/
  listMultipartUploads : String → Except StorageError (List (String × String))
  abortMultipartUpload : String → String → Except StorageError Unit
  deleteObject : String → Except StorageError Unit

/-- An exception no handler answers. -/
def unhandled : HttpError := { status := 500, detail := [] }

/-- `if condition: raise error`. -/
def raiseIf (condition : Prop) [Decidable condition] (error : HttpError) : Except HttpError Unit :=
  if condition then .error error else .ok ()

theorem raiseIf_ok {condition : Prop} [Decidable condition] {error u}
    (h : raiseIf condition error = .ok u) : ¬ condition := (guard_ok h).1

/-- A storage call whose exceptions the service lets through. -/
def uncaught {β : Type} : Except StorageError β → Except HttpError β
  | .ok b => .ok b
  | .error _ => .error unhandled

def safeChar (ch : Char) : Bool :=
  ('A' ≤ ch ∧ ch ≤ 'Z') ∨ ('a' ≤ ch ∧ ch ≤ 'z') ∨ ('0' ≤ ch ∧ ch ≤ '9') ∨ ch = '.' ∨ ch = '_' ∨
    ch = '-'

/-- `_UNSAFE_CHARS.sub("_", filename)`: a run of unsafe characters is one
underscore. -/
def subUnsafe : Bool → List Char → List Char
  | _, [] => []
  | inRun, ch :: rest =>
    if safeChar ch then ch :: subUnsafe false rest
    else if inRun then subUnsafe true rest
    else '_' :: subUnsafe true rest

/-- `safe_object_key`, in the month `yearMonth` (`{yyyy}/{mm}`). -/
def safeObjectKey (projectSlug yearMonth : String) (transferId : Uuid) (filename : String) : String :=
  "studio/" ++ projectSlug ++ "/" ++ yearMonth ++ "/" ++ transferId.str ++ "/" ++
    String.ofList ((subUnsafe false filename.toList).take 200)

def base64Value (ch : Char) : Option Nat :=
  if 'A' ≤ ch ∧ ch ≤ 'Z' then some (ch.toNat - 65)
  else if 'a' ≤ ch ∧ ch ≤ 'z' then some (ch.toNat - 71)
  else if '0' ≤ ch ∧ ch ≤ '9' then some (ch.toNat + 4)
  else if ch = '+' then some 62
  else if ch = '/' then some 63
  else none

/-- `binascii.a2b_base64`: `quadPos` digits of a quad are read, the last of
them leaves `left`; `none` is `binascii.Error`. -/
def a2bBase64 (quadPos pads left : Nat) : List Char → Option (List Nat)
  | [] => if quadPos = 0 then some [] else none
  | ch :: rest =>
    if ch = '=' then
      if 2 ≤ quadPos then
        if 4 ≤ quadPos + (pads + 1) then some [] else a2bBase64 quadPos (pads + 1) left rest
      else a2bBase64 quadPos pads left rest
    else
      match base64Value ch with
      | none => a2bBase64 quadPos pads left rest
      | some digit =>
        match quadPos with
        | 0 => a2bBase64 1 0 digit rest
        | 1 => (a2bBase64 2 0 (digit % 16) rest).map ((left * 4 + digit / 16) :: ·)
        | 2 => (a2bBase64 3 0 (digit % 4) rest).map ((left * 16 + digit / 4) :: ·)
        | _ => (a2bBase64 0 0 0 rest).map ((left * 64 + digit) :: ·)

def hex (bytes : List Nat) : String :=
  String.ofList (bytes.flatMap fun byte => [Nat.digitChar (byte / 16), Nat.digitChar (byte % 16)])

/-- `base64.b64decode(content_md5).hex()`, and the empty string where
`binascii.Error` is caught; a `ValueError` for a character outside ASCII is
not. -/
def expectedHex (contentMd5 : String) : Except HttpError String :=
  if contentMd5.toList.any (128 ≤ ·.toNat) then .error unhandled
  else .ok (((a2bBase64 0 0 0 contentMd5.toList).map hex).getD "")

example : expectedHex "1B2M2Y8AsgTpgAmY7PhCfg==" = .ok "d41d8cd98f00b204e9800998ecf8427e" := by
  decide +kernel

/-- `str(...).strip('"')`. -/
def stripQuotes (text : String) : String :=
  String.ofList (((text.toList.dropWhile (· = '"')).reverse.dropWhile (· = '"')).reverse)

/-- `principal.user.id`: `load_principal` loads the owner of the machine. -/
def userId (principal : Principal) : Uuid := principal.machine.ownerUserId

def ensureTransferAccess (principal : Principal) (transfer : TransferRow) (action : String) :
    Except HttpError Unit :=
  let isSender := transfer.senderUserId = userId principal
  let isRecipient := transfer.recipientUserId = some (userId principal)
  let isBroadcast := transfer.recipientUserId = none
  let isAdmin := principal.role = .admin
  if action = "read" then
    if isSender ∨ isRecipient ∨ isBroadcast ∨ isAdmin then .ok ()
    else .error (forbidden "transfer" action)
  else if isAdmin ∨ isSender then ensureCanWrite principal "transfer"
  else .error (forbidden "transfer" action)

def ensureTransferScope (principal : Principal) (projectId : Option Uuid) (action : String) :
    Except HttpError Unit :=
  match projectId with
  | none => ensureSharedAccess principal action
  | some projectId => ensureProjectAccess principal projectId action

def authorizeCreate (principal : Principal) (projectId : Option Uuid) : Except HttpError Unit := do
  ensureTransferScope principal projectId "write"
  ensureCanWrite principal "transfer"

def multipartThresholdBytes : Int := 128 * 1024 * 1024

def partSizeBytes : Int := 64 * 1024 * 1024

def retentionDays : TransferCategory → Option Nat
  | .temporary => some 7
  | .build => some 30
  | .asset | .rawRecording => none

/-- Sum of `size_bytes` over the non-deleted transfers of a quota bucket. -/
def computeConsumption (transfers : List TransferRow) (projectId : Option Uuid) : Int :=
  ((transfers.filter fun row => row.status ≠ .deleted ∧ row.projectId = projectId).map
    (·.sizeBytes)).sum

/-- `bucket_key` of `_lock_quota_bucket`. -/
def bucketKey : Option Uuid → String
  | some projectId => projectId.str
  | none => "unscoped-transfer-quota"

/-- `_enforce_transfer_limits`, before the lock. -/
def enforceSize (settings : Settings) (sizeBytes : Int) : Except HttpError Unit :=
  raiseIf (settings.transferMaxSizeBytes < sizeBytes)
    { status := 413
      detail := [("error_code", "transfer_too_large"), ("size_bytes", toString sizeBytes),
        ("max_size_bytes", toString settings.transferMaxSizeBytes)] }

/-- `_enforce_transfer_limits`, under the lock. -/
def enforceQuota (settings : Settings) (projectId : Option Uuid) (consumed sizeBytes : Int) :
    Except HttpError Unit :=
  raiseIf (settings.transferProjectQuotaBytes < consumed + sizeBytes)
    { status := 507
      detail := [("error_code", "quota_exceeded"),
        ("project_id", (projectId.map (·.str)).getD "null"),
        ("consumed_bytes", toString consumed), ("requested_bytes", toString sizeBytes),
        ("quota_bytes", toString settings.transferProjectQuotaBytes)] }

/-- The build of a creation exists and is of the project. -/
def checkBuild (builds : Uuid → Option BuildRow) (transferIn : TransferCreate) :
    Except HttpError Unit :=
  match transferIn.buildId with
  | none => .ok ()
  | some buildId =>
    match builds buildId with
    | none =>
      .error
        { status := 404
          detail := [("error_code", "build_not_found"), ("message", "build not found")] }
    | some build =>
      raiseIf (transferIn.projectId.any (build.projectId ≠ ·))
        { status := 409
          detail := [("error_code", "build_project_mismatch"),
            ("message", "build belongs to another project")] }

/-- What `create_transfer` draws: a UUID, a code and the time. -/
structure Draw where
  id : Uuid
  transferCode : String
  now : Timestamp
  yearMonth : String

def newTransfer (principal : Principal) (transferIn : TransferCreate) (projectSlug : String)
    (draw : Draw) : TransferRow :=
  { id := draw.id
    transferCode := draw.transferCode
    senderUserId := userId principal
    recipientUserId := transferIn.recipientUserId
    projectId := transferIn.projectId
    taskId := transferIn.taskId
    buildId := transferIn.buildId
    category := transferIn.category
    filename := transferIn.filename
    objectKey := safeObjectKey projectSlug draw.yearMonth draw.id transferIn.filename
    contentType := transferIn.contentType
    sizeBytes := transferIn.sizeBytes
    sha256 := none
    contentMd5 := none
    status := .created
    expiresAt := (retentionDays transferIn.category).map fun days => draw.now + seconds (86400 * days)
    createdAt := draw.now
    uploadedAt := none
    downloadedAt := none
    deletedAt := none }

def alreadyReady : HttpError := { status := 409, detail := [("error_code", "transfer_already_ready")] }

/-- `range(1, part_count + 1)`. -/
def partNumbers (sizeBytes : Int) : List Int :=
  (List.range ((sizeBytes + partSizeBytes - 1) / partSizeBytes).toNat).map fun n => (n : Int) + 1

def initiateUpload (principal : Principal) (storage : Storage) (settings : Settings)
    (transfer : TransferRow) (contentMd5 : Option String) (now : Timestamp) :
    Except HttpError (TransferRow × Reply) := do
  ensureTransferScope principal transfer.projectId "write"
  ensureTransferAccess principal transfer "write"
  raiseIf (transfer.status = .ready) alreadyReady
  if transfer.sizeBytes ≤ multipartThresholdBytes then
    let md5 := contentMd5.getD ""
    raiseIf (md5 = "") { status := 422, detail := [("error_code", "missing_content_md5")] }
    .ok ({ transfer with contentMd5 := some md5 },
      .putUrl transfer.id (storage.presignPut transfer.objectKey transfer.contentType md5))
  else
    let uploadId ← uncaught (storage.createMultipartUpload transfer.objectKey transfer.contentType)
    let urls := (partNumbers transfer.sizeBytes).map fun n =>
      (n, storage.presignUploadPart transfer.objectKey uploadId n)
    .ok (transfer, .partUrls transfer.id uploadId urls partSizeBytes
        (now + seconds settings.presignedUrlTtlSeconds))

/-- The first requested part that the upload does not have. -/
def checkPartNumbers (partCount : Int) (requested : List Int) : Except HttpError Unit :=
  match requested.find? fun number => number < 1 ∨ partCount < number with
  | some number =>
    .error
      { status := 422
        detail := [("error_code", "invalid_part_number"), ("part_number", toString number),
          ("part_count", toString partCount)] }
  | none => .ok ()

/-- An upload that storage does not know is refused. -/
def listParts (storage : Storage) (transfer : TransferRow) (uploadId : String) :
    Except HttpError (List (Int × String)) :=
  match storage.listParts transfer.objectKey uploadId with
  | .ok parts => .ok parts
  | .error error =>
    if error = .client "NoSuchUpload" then
      .error { status := 409, detail := [("error_code", "unknown_upload_id")] }
    else .error unhandled

def refreshUploadParts (principal : Principal) (storage : Storage) (settings : Settings)
    (transfer : TransferRow) (uploadId : String) (partSize : Option Int)
    (numbers : Option (List Int)) (now : Timestamp) : Except HttpError (TransferRow × Reply) := do
  ensureTransferScope principal transfer.projectId "write"
  ensureTransferAccess principal transfer "write"
  raiseIf (transfer.status = .ready) alreadyReady
  raiseIf (partSize.any (· ≠ partSizeBytes))
    { status := 409
      detail := [("error_code", "part_size_mismatch"), ("expected", toString partSizeBytes),
        ("actual", toString (partSize.getD 0))] }
  let uploadedParts ← listParts storage transfer uploadId
  let partCount := (transfer.sizeBytes + partSizeBytes - 1) / partSizeBytes
  let requested := numbers.getD (partNumbers transfer.sizeBytes)
  checkPartNumbers partCount requested
  let missing := requested.filter fun n => n ∉ uploadedParts.map (·.1)
  let urls := missing.map fun n => (n, storage.presignUploadPart transfer.objectKey uploadId n)
  return (transfer, .refreshed transfer.id uploadId partSizeBytes urls uploadedParts
      (now + seconds settings.presignedUrlTtlSeconds))

def sizeMismatch (expected actual : Int) : HttpError :=
  { status := 422
    detail := [("error_code", "size_mismatch"), ("expected", toString expected),
      ("actual", toString actual)] }

/-- The multipart upload is completed in storage. -/
def assemble (storage : Storage) (transfer : TransferRow) (uploadId : Option String)
    (parts : List (Int × String)) : Except HttpError Unit :=
  if parts = [] then .ok ()
  else if uploadId.getD "" = "" then
    .error { status := 422, detail := [("error_code", "missing_upload_id")] }
  else uncaught (storage.completeMultipartUpload transfer.objectKey (uploadId.getD "") parts)

def headObject (storage : Storage) (transfer : TransferRow) : Except HttpError Head :=
  match storage.headObject transfer.objectKey with
  | .ok head => .ok head
  | .error error =>
    if error = .client "404" then
      .error { status := 422, detail := [("error_code", "object_not_found")] }
    else .error unhandled

/-- The checksum of a single PUT is asked again. -/
def checkMd5 (transfer : TransferRow) (parts : List (Int × String)) (head : Head) :
    Except HttpError Unit :=
  let contentMd5 := transfer.contentMd5.getD ""
  if parts = [] ∧ contentMd5 ≠ "" then do
    let expected ← expectedHex contentMd5
    raiseIf (expected ≠ stripQuotes (head.etag.getD ""))
      { status := 422, detail := [("error_code", "content_md5_mismatch")] }
  else .ok ()

def completeUpload (principal : Principal) (storage : Storage) (transfer : TransferRow)
    (body : UploadCompleteRequest) (now : Timestamp) : Except HttpError TransferRow := do
  ensureTransferScope principal transfer.projectId "write"
  ensureTransferAccess principal transfer "write"
  raiseIf (body.sizeBytes ≠ transfer.sizeBytes) (sizeMismatch transfer.sizeBytes body.sizeBytes)
  let parts := body.parts.getD []
  assemble storage transfer body.uploadId parts
  let head ← headObject storage transfer
  raiseIf (head.contentLength.any (· ≠ transfer.sizeBytes))
    (sizeMismatch transfer.sizeBytes (head.contentLength.getD 0))
  checkMd5 transfer parts head
  return { transfer with sha256 := some body.sha256, status := .ready, uploadedAt := some now }

def getDownloadUrl (storage : Storage) (settings : Settings) (transfer : TransferRow)
    (now : Timestamp) : Reply :=
  .downloadUrl transfer.id (storage.presignGet transfer.objectKey)
    (now + seconds settings.presignedUrlTtlSeconds)

def markDownloaded (transfer : TransferRow) (now : Timestamp) : TransferRow :=
  { transfer with downloadedAt := some now, status := .downloaded }

def abortDanglingMultipartUploads (storage : Storage) (objectKey : String) :
    Except StorageError Unit := do
  let uploads ← storage.listMultipartUploads objectKey
  uploads.forM fun upload =>
    if upload.1 = objectKey then storage.abortMultipartUpload objectKey upload.2 else .ok ()

def storageUnavailable : HttpError :=
  { status := 503
    detail := [("error_code", "storage_unavailable"), ("resource", "transfer"),
      ("action", "delete")] }

/-- The storage calls of `_do_delete`. -/
def deleteObject (storage : Storage) (objectKey : String) : Except HttpError Unit :=
  match (do abortDanglingMultipartUploads storage objectKey; storage.deleteObject objectKey) with
  | .ok () => .ok ()
  | .error _ => .error storageUnavailable

def doDelete (storage : Storage) (transfer : TransferRow) (now : Timestamp) :
    Except HttpError TransferRow :=
  if transfer.status = .deleted then .ok transfer
  else do
    deleteObject storage transfer.objectKey
    return { transfer with status := .deleted, deletedAt := some now }

def deleteTransfer (principal : Principal) (storage : Storage) (transfer : TransferRow)
    (now : Timestamp) : Except HttpError TransferRow := do
  ensureTransferScope principal transfer.projectId "write"
  ensureTransferAccess principal transfer "write"
  doDelete storage transfer now

/-- The SELECT of `expire_transfers`. -/
def expiredTransfers (transfers : List TransferRow) (now : Timestamp) : List TransferRow :=
  transfers.filter fun row => row.expiresAt.any (· ≤ now) ∧ row.status ≠ .deleted

end StudioOS.Transfers
