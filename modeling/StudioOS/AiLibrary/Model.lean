import StudioOS.Resolution.Contract

/-!
# AI library — Model

The tables of the AI library and the decisions of `services/library.py`: who may read and write a
resource, which resource a dependency pin names, which bindings a version may have, and what each
service assigns to the row of a resource.
-/

namespace StudioOS.AiLibrary

open Authz Resolution

inductive LibraryStatus where
  | draft
  | active
  | deprecated
deriving DecidableEq

/-- `LibraryResourceModel`; `version` is the column of `VersionMixin`. -/
structure LibraryResource where
  id : Uuid
  kind : LibraryKind
  stableKey : String
  scope : LibraryScope
  status : LibraryStatus
  activeVersion : Int
  ownerUserId : Option Uuid
  projectId : Option Uuid
  version : Int
deriving DecidableEq

/-- `LibraryResourceVersionModel`. -/
structure LibraryVersion where
  id : Uuid
  resourceId : Uuid
  version : Int
  title : String
  content : Content
deriving DecidableEq

/-- `LibraryResourceLinkModel`. -/
structure LibraryLink where
  fromVersionId : Uuid
  toResourceId : Uuid
  toVersion : Int
  relation : BindingRelation
deriving DecidableEq

/-- The committed rows. Each table is in the order of the commits. -/
structure Tables where
  resources : List LibraryResource
  versions : List LibraryVersion
  links : List LibraryLink

/-- `session.get(LibraryResourceModel, id)`. -/
def Tables.resource (tables : Tables) (id : Uuid) : Option LibraryResource :=
  tables.resources.find? (·.id = id)

def versionRow (versions : List LibraryVersion) (resourceId : Uuid) (version : Int) :
    Option LibraryVersion :=
  versions.find? fun row => row.resourceId = resourceId ∧ row.version = version

def Tables.linksOf (tables : Tables) (row : LibraryVersion) : List LibraryLink :=
  tables.links.filter (·.fromVersionId = row.id)

/-- `select(func.max(version))`, `0` when there is none. -/
def maxVersion (versions : List LibraryVersion) (resourceId : Uuid) : Int :=
  ((versions.filter (·.resourceId = resourceId)).map (·.version)).foldl max 0

/-- A `DependencyPin`, or a `ResourceDependencyPin` when it has a
`resourceId`. -/
structure DependencyPin where
  kind : LibraryKind
  stableKey : String
  version : Int
  relation : Option BindingRelation := none
  resourceId : Option Uuid := none

structure LibraryResourceCreate where
  kind : LibraryKind
  stableKey : String
  scope : LibraryScope
  projectId : Option Uuid
  title : String
  content : Content
  dependencies : List DependencyPin

structure LibraryVersionCreate where
  title : String
  content : Content
  dependencies : List DependencyPin

/-- `principal.user.id`. -/
def userId (principal : Principal) : Uuid := principal.machine.ownerUserId

def canRead (principal : Principal) (resource : LibraryResource) : Bool :=
  if resource.scope = .user then
    principal.role = .admin || resource.ownerUserId = some (userId principal)
  else
    match resource.projectId with
    | some projectId => hasProjectAccess principal projectId
    | none => hasAnyProject principal

def ensureScopeAccess (principal : Principal) (projectId : Option Uuid) (isUserScope : Bool)
    (action : String) : Except HttpError Unit :=
  if isUserScope then .ok ()
  else
    match projectId with
    | some projectId => ensureProjectAccess principal projectId action
    | none => ensureSharedAccess principal action

def ensureResourceScope (principal : Principal) (resource : LibraryResource) (action : String) :
    Except HttpError Unit :=
  ensureScopeAccess principal resource.projectId (resource.scope = .user) action

def resourceNotFound : HttpError :=
  { status := 404, detail := [("detail", "library resource not found")] }

/-- `get_resource`, with the `404` its callers answer for `None`. -/
def getResource (principal : Principal) (tables : Tables) (id : Uuid) :
    Except HttpError LibraryResource :=
  match tables.resource id with
  | none => .error resourceNotFound
  | some resource => do
    ensureResourceScope principal resource "read"
    if canRead principal resource then return resource else throw resourceNotFound

def authorizeWrite (principal : Principal) (resource : LibraryResource) : Except HttpError Unit := do
  ensureResourceScope principal resource "write"
  ensureCanWrite principal "library"

def authorizeCreate (principal : Principal) (scope : LibraryScope) (projectId : Option Uuid) :
    Except HttpError Unit := do
  ensureScopeAccess principal projectId (scope = .user) "write"
  if scope = .studio then ensureCanProvision principal "library"
  else ensureCanWrite principal "library"

def ensureOwnerOrAdmin (principal : Principal) (resource : LibraryResource) :
    Except HttpError Unit := do
  authorizeWrite principal resource
  if principal.role ≠ .admin ∧ resource.ownerUserId ≠ some (userId principal) then
    throw (forbidden "library" "write")

def invalidScopeContext : HttpError :=
  { status := 422, detail := [("error_code", "invalid_scope_context")] }

/-- The checks of `create_resource` before its first `INSERT`, and the
project of the new row. -/
def checkCreate (projectExists : Uuid → Bool) (principal : Principal)
    (data : LibraryResourceCreate) : Except HttpError (Option Uuid) := do
  authorizeCreate principal data.scope data.projectId
  match data.scope, data.projectId with
  | .studio, none => do
    ensureCanProvision principal "library"
    return none
  | .studio, some _ => do
    ensureCanProvision principal "library"
    throw invalidScopeContext
  | .project, none => do
    ensureCanWrite principal "library"
    throw invalidScopeContext
  | .project, some projectId => do
    ensureCanWrite principal "library"
    if projectExists projectId then return some projectId
    else throw { status := 404, detail := [("error_code", "project_not_found")] }
  | .user, none => do
    ensureCanWrite principal "library"
    return none
  | .user, some _ => do
    ensureCanWrite principal "library"
    throw invalidScopeContext

/-- The row `create_resource` inserts. -/
def newResource (principal : Principal) (data : LibraryResourceCreate) (projectId : Option Uuid)
    (id : Uuid) : LibraryResource :=
  { id := id
    kind := data.kind
    stableKey := data.stableKey
    scope := data.scope
    status := .draft
    activeVersion := 0
    ownerUserId := some (userId principal)
    projectId := projectId
    version := 1 }

/-- The unique indexes on `library_resources`: two rows that may not
both be stored. -/
def sameKey (resource other : LibraryResource) : Bool :=
  resource.kind = other.kind && resource.stableKey = other.stableKey &&
    resource.scope = other.scope &&
    match resource.scope with
    | .studio => true
    | .project => resource.projectId = other.projectId
    | .user => resource.ownerUserId = other.ownerUserId

/-- The `WHERE` clause of `_resolve_pin`. -/
def DependencyPin.names (pin : DependencyPin) (resource : LibraryResource) : Bool :=
  resource.kind = pin.kind && resource.stableKey = pin.stableKey &&
    pin.resourceId.all (· = resource.id)

/-- `_resolve_pin`, over the rows the query sees. -/
def resolvePin (principal : Principal) (resources : List LibraryResource) (pin : DependencyPin) :
    Except HttpError LibraryResource :=
  match resources.filter fun r => pin.names r && canRead principal r with
  | [] => .error
      { status := 404
        detail := [("error_code", "pin_not_found"), ("stable_key", pin.stableKey)] }
  | [target] => .ok target
  | _ :: _ :: _ => .error
      { status := 409
        detail := [("error_code", "pin_ambiguous"), ("stable_key", pin.stableKey)] }

def pinVersionNotFound (pin : DependencyPin) : HttpError :=
  { status := 404
    detail := [("error_code", "pin_version_not_found"), ("stable_key", pin.stableKey)] }

def invalidBinding (reason : String) : HttpError :=
  { status := 422, detail := [("error_code", "invalid_binding"), ("reason", reason)] }

def bindingScopeAllows (sourceScope : LibraryScope) (sourceOwner : Option Uuid)
    (targetScope : LibraryScope) (targetOwner : Option Uuid) : Bool :=
  if targetScope = .user then
    sourceScope = .user && sourceOwner.isSome && sourceOwner = targetOwner
  else true

/-- A version being created: its resource as the session holds it, its
row, and what the loop over the pins has gathered. -/
structure Draft where
  resource : LibraryResource
  row : LibraryVersion
  seenTargets : List Uuid := []
  modelProfileCount : Nat := 0
  links : List LibraryLink := []

/-- `model_profile_count` after a binding of this relation. -/
def Draft.profilesWith (draft : Draft) (relation : BindingRelation) : Nat :=
  if relation = .requiresModelProfile then draft.modelProfileCount + 1
  else draft.modelProfileCount

/-- One turn of the loop over `dependencies`, from `binding_relation_for`
on. -/
def Draft.bind (draft : Draft) (pin : DependencyPin) (target : LibraryResource) :
    Except HttpError Draft :=
  match bindingRelationFor draft.resource.kind target.kind with
  | none => .error (invalidBinding "forbidden_kind_pair")
  | some expected =>
    if pin.relation.any (· ≠ expected) then .error (invalidBinding "relation_mismatch")
    else if expected = .requiresModelProfile ∧ draft.profilesWith expected > 1 then
      .error (invalidBinding "too_many_model_profiles")
    else if target.id ∈ draft.seenTargets then .error (invalidBinding "duplicate_binding")
    else if bindingScopeAllows draft.resource.scope draft.resource.ownerUserId target.scope
        target.ownerUserId = false then
      .error (invalidBinding "forbidden_scope")
    else .ok { draft with
      seenTargets := target.id :: draft.seenTargets
      modelProfileCount := draft.profilesWith expected
      links := draft.links ++
        [{ fromVersionId := draft.row.id
           toResourceId := target.id
           toVersion := pin.version
           relation := expected }] }

theorem Draft.bind_ok {draft next : Draft} {pin : DependencyPin} {target : LibraryResource}
    (h : draft.bind pin target = .ok next) : next.resource = draft.resource ∧ next.row = draft.row ∧
      ∃ relation, bindingRelationFor draft.resource.kind target.kind = some relation ∧
        next.links = draft.links ++ [{ fromVersionId := draft.row.id, toResourceId := target.id
                                       toVersion := pin.version, relation := relation }] := by
  unfold Draft.bind at h
  split at h
  · cases h
  rename_i relation hrelation
  split at h
  · cases h
  split at h
  · cases h
  split at h
  · cases h
  split at h
  · cases h
  cases h
  exact ⟨rfl, rfl, relation, hrelation, rfl⟩

/-- What `activate_resource_version` assigns. -/
def LibraryResource.activated (resource : LibraryResource) (version : Int) : LibraryResource :=
  { resource with activeVersion := version, status := .active, version := resource.version + 1 }

/-- What `deprecate_resource` assigns. -/
def LibraryResource.deprecated (resource : LibraryResource) : LibraryResource :=
  { resource with status := .deprecated, version := resource.version + 1 }

/-- What `create_resource_version` assigns: `locked.version += 1`. -/
def LibraryResource.bumped (resource : LibraryResource) : LibraryResource :=
  { resource with version := resource.version + 1 }

/-- The row the flush leaves, when `loaded` was read, `assigned` is what
the session holds and `current` stands in the table. -/
def flushRow (loaded assigned current : LibraryResource) : LibraryResource :=
  { current with
    status := flushed loaded.status assigned.status current.status
    activeVersion := flushed loaded.activeVersion assigned.activeVersion current.activeVersion
    version := flushed loaded.version assigned.version current.version }

/-- `UPDATE library_resources ... WHERE id = loaded.id`. -/
def updateResource (resources : List LibraryResource) (loaded assigned : LibraryResource) :
    List LibraryResource :=
  resources.map fun current =>
    if current.id = loaded.id then flushRow loaded assigned current else current

def versionConflict (resource : LibraryResource) : HttpError :=
  { status := 409
    detail := [("error_code", "version_conflict"), ("server_version", toString resource.version)] }

/-- `activate_resource_version` before its `commit`: the row to write,
`none` when there is nothing to write. -/
def checkActivate (principal : Principal) (versions : List LibraryVersion)
    (resource : LibraryResource) (version expectedResourceVersion : Int) :
    Except HttpError (Option LibraryResource) := do
  ensureOwnerOrAdmin principal resource
  if resource.version ≠ expectedResourceVersion then throw (versionConflict resource)
  if versionRow versions resource.id version = none then
    throw { status := 404, detail := [("error_code", "version_not_found")] }
  if resource.activeVersion ≠ version ∨ resource.status ≠ .active then
    return some (resource.activated version)
  return none

/-- `deprecate_resource` before its `commit`. -/
def checkDeprecate (principal : Principal) (resource : LibraryResource)
    (expectedResourceVersion : Int) : Except HttpError (Option LibraryResource) := do
  ensureOwnerOrAdmin principal resource
  if resource.version ≠ expectedResourceVersion then throw (versionConflict resource)
  if resource.status ≠ .deprecated then return some resource.deprecated
  return none

end StudioOS.AiLibrary
