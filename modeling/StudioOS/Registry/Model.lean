import Mathlib.Data.List.Sort

/-!
# Registry — Model

The registry of workspaces on one machine: `WorkspaceStore` keeps one config
for each workspace, `RootConfirmationService` the confirmations of folder
picks. A file is the config it reads back as; a call names what the disk does
with its write, and the reading of the clock it uses.
-/

namespace StudioOS.Registry

abbrev Text := List Char

/-- `path.replace("/", "\\")`. -/
def backslashed (path : Text) : Text := path.map fun c => if c = '/' then '\\' else c

/-- `text.find("\\", start)`. -/
def findSep (text : Text) (start : Nat) : Option Nat :=
  ((text.drop start).findIdx? (· = '\\')).map (start + ·)

/-- `ntpath.splitroot` of a path whose separators are all `\`: drive, root
and tail. -/
def splitroot (path : Text) : Text × Text × Text :=
  if path.take 2 = ['\\', '\\'] then
    let unc := (path.take 8).map Char.toUpper = "\\\\?\\UNC\\".toList
    match findSep path (if unc then 8 else 2) with
    | none => (path, [], [])
    | some index =>
      match findSep path (index + 1) with
      | none => (path, [], [])
      | some index => (path.take index, (path.drop index).take 1, path.drop (index + 1))
  else if path.take 1 = ['\\'] then ([], path.take 1, path.drop 1)
  else if (path.drop 1).take 1 = [':'] then
    if (path.drop 2).take 1 = ['\\'] then (path.take 2, (path.drop 2).take 1, path.drop 3)
    else (path.take 2, [], path.drop 2)
  else ([], [], path)

/-- The loop of `ntpath.normpath` over the components; `kept` has those
before the index, the last one first. -/
def normComponents (rooted : Bool) : List Text → List Text → List Text
  | kept, [] => kept.reverse
  | kept, comp :: rest =>
    if comp = [] ∨ comp = ['.'] then normComponents rooted kept rest
    else if comp = ['.', '.'] then
      match kept with
      | last :: before =>
        if last = ['.', '.'] then normComponents rooted (comp :: kept) rest
        else normComponents rooted before rest
      | [] =>
        if rooted = true then normComponents rooted [] rest
        else normComponents rooted [comp] rest
    else normComponents rooted (comp :: kept) rest

def normpath (path : Text) : Text :=
  let (drive, root, tail) := splitroot (backslashed path)
  let comps := normComponents (!root.isEmpty) [] (tail.splitOn '\\')
  let comps := if drive ++ root = [] ∧ comps = [] then [['.']] else comps
  drive ++ root ++ ['\\'].intercalate comps

structure ProfileRef where
  profileId : String
  serverOrigin : String
deriving DecidableEq

structure RepoRoot where
  name : String
  path : Text
deriving DecidableEq

structure WorkspaceRoots where
  workspaceRoot : Text
  repoRoots : List RepoRoot
  unique : (repoRoots.map RepoRoot.name).Nodup
  bounded : repoRoots.length ≤ 32
deriving DecidableEq

/-- `SecretReference`, as far as the store reads it. -/
structure SecretReference where
  profile : ProfileRef

/-- `LocalWorkspaceConfig`; `rest` stands for the fields that only the search
for secrets reads. -/
structure LocalWorkspaceConfig where
  workspaceId : Nat
  profile : ProfileRef
  projectId : Nat
  roots : WorkspaceRoots
  secretReferences : List SecretReference
  updatedAt : Nat
  rest : String
  references : ∀ reference ∈ secretReferences, reference.profile = profile

structure WorkspaceSaveConfigRequest where
  config : LocalWorkspaceConfig
  currentRoots : Option WorkspaceRoots
  expectedUpdatedAt : Option Nat
  rootConfirmationId : Option String
  confirmed : currentRoots ≠ some config.roots ↔ rootConfirmationId.isSome = true

inductive LocalErrorCode where
  | wrongProfile
  | invalidRequest
  | workspaceConfigMissing
  | workspaceConfigInvalid
  | workspaceInaccessible

inductive ConfirmationError where
  | missing
  | invalid
  | reused
  | expired
  | mismatch
  | stray

inductive Error where
  /-- `WorkspaceStoreError`. -/
  | store (code : LocalErrorCode) (message : String)
  /-- A `RootConfirmationError`. -/
  | confirmation (kind : ConfirmationError) (message : String)
  /-- `SecretMaterialError` with the places of the issues. -/
  | secretMaterial (issues : List String)
  | osError

/-- The roots as the fingerprint takes them, with a binding key for each
path. -/
structure Canonical where
  workspaceRoot : Text
  repoRoots : List (String × Text)
deriving DecidableEq

/-- What is outside the store. -/
structure Env (Digest : Type) where
  /-- `str.lower`. -/
  lower : Text → Text
  /-- The SHA-256 of the `repr` of the canonical roots. -/
  digest : Canonical → Digest
  /-- `find_secret_issues` of the dumped config. -/
  secretIssues : LocalWorkspaceConfig → List String
  /-- The lifetime of a confirmation. -/
  ttlSeconds : Int

section Service

variable {Digest : Type} (env : Env Digest)

def Env.workspaceBindingKey (path : Text) : Text := env.lower (backslashed (normpath path))

/-- The binding key of the folder of a config. -/
def Env.key (config : LocalWorkspaceConfig) : Text :=
  env.workspaceBindingKey config.roots.workspaceRoot

def Env.rootsFingerprint (roots : WorkspaceRoots) : Digest :=
  env.digest {
    workspaceRoot := env.workspaceBindingKey roots.workspaceRoot
    repoRoots := roots.repoRoots.map fun repo => (repo.name, env.workspaceBindingKey repo.path) }

structure Entry (Digest : Type) where
  rootsHash : Digest
  expiresAt : Int

/-- `RootConfirmationService`. `consumed` has the ids in the order in which
they were added, the last one first. -/
structure Confirmations (Digest : Type) where
  pending : List (String × Entry Digest) := []
  consumed : List String := []

/-- The entry of a confirmation issued at a time. -/
def Env.entry (target : WorkspaceRoots) (now : Int) : Entry Digest :=
  { rootsHash := env.rootsFingerprint target, expiresAt := now + env.ttlSeconds }

/-- `issue`, with the id it draws. -/
def Env.issue (confirmations : Confirmations Digest) (id : String) (target : WorkspaceRoots)
    (now : Int) : Confirmations Digest :=
  { confirmations with
    pending := (id, env.entry target now) :: confirmations.pending.filter fun p => p.1 ≠ id }

/-- The service without the pending entry, its id among the consumed ones. -/
def Confirmations.take (confirmations : Confirmations Digest) (id : String) :
    Confirmations Digest where
  pending := confirmations.pending.filter fun p => p.1 ≠ id
  consumed := id :: confirmations.consumed

/-- The end of `consume`, once the entry is taken. -/
def Env.checkEntry [DecidableEq Digest] (entry : Entry Digest) (new : WorkspaceRoots) (now : Int) :
    Except Error Unit :=
  if entry.expiresAt < now then
    .error (.confirmation .expired "root confirmation id has expired")
  else if entry.rootsHash ≠ env.rootsFingerprint new then
    .error (.confirmation .mismatch "root confirmation id is bound to other roots")
  else .ok ()

def Env.consume [DecidableEq Digest] (confirmations : Confirmations Digest)
    (confirmationId : Option String) (current : Option WorkspaceRoots) (new : WorkspaceRoots)
    (now : Int) : Confirmations Digest × Except Error Unit :=
  if current = some new then
    if confirmationId.isSome = true then
      (confirmations, .error (.confirmation .stray "no root transition carries no confirmation id"))
    else (confirmations, .ok ())
  else
    match confirmationId with
    | none =>
      (confirmations,
        .error (.confirmation .missing "a root transition requires root_confirmation_id"))
    | some id =>
      if id ∈ confirmations.consumed then
        (confirmations,
          .error (.confirmation .reused "root confirmation ids are single-use"))
      else
        match confirmations.pending.find? fun p => p.1 = id with
        | none =>
          (confirmations, .error (.confirmation .invalid "unknown root confirmation id"))
        | some p => (confirmations.take id, env.checkEntry p.2 new now)

/-! ## The store -/

structure State (Digest : Type) where
  files : List LocalWorkspaceConfig := []
  confirmations : Confirmations Digest := {}

inductive Disk where
  | done
  | mkdirFails
  | writeFails

def State.stored (s : State Digest) (workspaceId : Nat) : Option LocalWorkspaceConfig :=
  s.files.find? fun config => config.workspaceId = workspaceId

def put (files : List LocalWorkspaceConfig) (config : LocalWorkspaceConfig) :
    List LocalWorkspaceConfig :=
  config :: files.filter fun other => other.workspaceId ≠ config.workspaceId

def write (files : List LocalWorkspaceConfig) (config : LocalWorkspaceConfig) (disk : Disk) :
    List LocalWorkspaceConfig × Except Error Unit :=
  match disk with
  | .done => (put files config, .ok ())
  | .mkdirFails => (files, .error .osError)
  | .writeFails => (files, .error (.store .workspaceInaccessible "workspace config not written"))

/-- What `_same_folder_conflict` finds in one file. -/
def Env.conflictWith (config : LocalWorkspaceConfig) (rejectSameProject : Bool)
    (other : LocalWorkspaceConfig) : Option Error :=
  if other.workspaceId = config.workspaceId then none
  else if env.key other ≠ env.key config then none
  else if other.projectId ≠ config.projectId ∨ other.profile ≠ config.profile then
    some (.store .invalidRequest "this folder is already linked to another project or profile")
  else if rejectSameProject = true then
    some (.store .invalidRequest "this folder is already linked to this project")
  else none

/-- `_same_folder_conflict`, over the files in the order of their names. -/
def Env.sameFolderConflict (files : List LocalWorkspaceConfig) (config : LocalWorkspaceConfig)
    (rejectSameProject : Bool) : Option Error :=
  (files.insertionSort fun a b => a.workspaceId ≤ b.workspaceId).findSome?
    (env.conflictWith config rejectSameProject)

def checkProfile (config : LocalWorkspaceConfig) (profile : ProfileRef) : Except Error Unit :=
  if config.profile ≠ profile then
    .error (.store .workspaceConfigInvalid "workspace config belongs to another profile")
  else if (config.secretReferences.all fun reference => reference.profile = profile) = false then
    .error (.store .workspaceConfigInvalid "secret reference belongs to another profile")
  else .ok ()

def State.load (s : State Digest) (workspaceId : Nat) (profile : ProfileRef) :
    Except Error LocalWorkspaceConfig :=
  match s.stored workspaceId with
  | none => .error (.store .workspaceConfigMissing "no workspace config")
  | some config => (checkProfile config profile).map fun _ => config

/-- The search for secrets and for another workspace of the folder, then the
write. -/
def Env.finish (s : State Digest) (config : LocalWorkspaceConfig) (rejectSameProject : Bool)
    (disk : Disk) : State Digest × Except Error LocalWorkspaceConfig :=
  if env.secretIssues config ≠ [] then (s, .error (.secretMaterial (env.secretIssues config)))
  else
    match env.sameFolderConflict s.files config rejectSameProject with
    | some error => (s, .error error)
    | none =>
      let (files, result) := write s.files config disk
      ({ s with files }, result.map fun _ => config)

/-- The end of `create` and of `save`: the confirmation is consumed and the
config written. -/
def Env.commit [DecidableEq Digest] (s : State Digest) (request : WorkspaceSaveConfigRequest)
    (rejectSameProject : Bool) (now : Int) (disk : Disk) :
    State Digest × Except Error LocalWorkspaceConfig :=
  match env.consume s.confirmations request.rootConfirmationId request.currentRoots
      request.config.roots now with
  | (confirmations, .error error) => ({ s with confirmations }, .error error)
  | (confirmations, .ok ()) =>
    env.finish { s with confirmations } request.config rejectSameProject disk

/-- `create` before the confirmation is consumed. -/
def State.createChecks (s : State Digest) (request : WorkspaceSaveConfigRequest)
    (profile : ProfileRef) : Except Error Unit :=
  if request.config.profile ≠ profile then .error (.store .wrongProfile "profile mismatch")
  else if (s.stored request.config.workspaceId).isSome = true then
    .error (.store .invalidRequest "workspace already exists")
  else .ok ()

def Env.create [DecidableEq Digest] (s : State Digest) (request : WorkspaceSaveConfigRequest)
    (profile : ProfileRef) (now : Int) (disk : Disk) :
    State Digest × Except Error LocalWorkspaceConfig :=
  match s.createChecks request profile with
  | .error error => (s, .error error)
  | .ok () => env.commit s request true now disk

/-- `save` before the confirmation is consumed: the stored config. -/
def State.saveChecks (s : State Digest) (request : WorkspaceSaveConfigRequest)
    (profile : ProfileRef) : Except Error LocalWorkspaceConfig :=
  if request.config.profile ≠ profile then .error (.store .wrongProfile "profile mismatch")
  else
    match s.load request.config.workspaceId profile with
    | .error error => .error error
    | .ok stored =>
      if request.currentRoots ≠ some stored.roots then
        .error (.store .invalidRequest "current_roots does not match the stored config")
      else if request.expectedUpdatedAt.isSome = true ∧
          request.expectedUpdatedAt ≠ some stored.updatedAt then
        .error (.store .invalidRequest "stale workspace config")
      else .ok stored

def Env.save [DecidableEq Digest] (s : State Digest) (request : WorkspaceSaveConfigRequest)
    (profile : ProfileRef) (now : Int) (disk : Disk) :
    State Digest × Except Error LocalWorkspaceConfig :=
  match s.saveChecks request profile with
  | .error error => (s, .error error)
  | .ok stored =>
    let moved := env.key request.config ≠ env.key stored
    env.commit s request (decide moved) now disk

/-- `dissociate`: the root it preserves. -/
def State.dissociate (s : State Digest) (workspaceId : Nat) (profile : ProfileRef)
    (unlinks : Bool) : State Digest × Except Error Text :=
  match s.load workspaceId profile with
  | .error error => (s, .error error)
  | .ok config =>
    if unlinks = true then
      ({ s with files := s.files.filter fun other => other.workspaceId ≠ workspaceId },
        .ok config.roots.workspaceRoot)
    else (s, .error (.store .workspaceInaccessible "workspace config not removed"))

inductive Call where
  | issue (id : String) (target : WorkspaceRoots) (now : Int)
  | create (request : WorkspaceSaveConfigRequest) (profile : ProfileRef) (now : Int) (disk : Disk)
  | save (request : WorkspaceSaveConfigRequest) (profile : ProfileRef) (now : Int) (disk : Disk)
  | dissociate (workspaceId : Nat) (profile : ProfileRef) (unlinks : Bool)

/-- The state after a call, whether it answers or raises. -/
def Env.step [DecidableEq Digest] (s : State Digest) : Call → State Digest
  | .issue id target now => { s with confirmations := env.issue s.confirmations id target now }
  | .create request profile now disk => (env.create s request profile now disk).1
  | .save request profile now disk => (env.save s request profile now disk).1
  | .dissociate workspaceId profile unlinks => (s.dissociate workspaceId profile unlinks).1

/-- The state after the calls, from an empty registry. -/
def Env.run [DecidableEq Digest] (calls : List Call) : State Digest :=
  calls.foldl env.step {}

end Service

end StudioOS.Registry
