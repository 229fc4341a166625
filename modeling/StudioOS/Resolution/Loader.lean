import StudioOS.AiLibrary.Model
import StudioOS.Resolution.Core

/-!
# Resolution — Loader

`services/resolution.py`: from the library tables to the snapshot that
`resolve_agent` is given, and to the answer of `resolve_full`.
-/

namespace StudioOS.Resolution

open Authz AiLibrary

/-- How a load that returns nothing ends: with the error it raised, or
still running when the fuel is spent. -/
inductive LoadHalt where
  | refused (error : HttpError)
  | running

/-- A call that answers for itself, inside the load. -/
def refusing {α : Type} (result : Except HttpError α) : Except LoadHalt α :=
  result.mapError LoadHalt.refused

def definitionNotFound : HttpError :=
  { status := 404, detail := [("error_code", "definition_not_found")] }

/-- `LibraryProjectLockModel`. -/
structure ProjectLock where
  projectId : Uuid
  resourceId : Uuid
  lockedVersion : Int

structure LibraryResolution where
  resourceId : Uuid
  kind : LibraryKind
  stableKey : String
  scope : LibraryScope
  version : Int
  versionOrigin : VersionOrigin
  deprecated : Bool

def findReadableResource (principal : Principal) (tables : Tables) (id : Uuid) :
    Option LibraryResource :=
  (tables.resource id).filter (canRead principal)

/-- The target of a link is there for the caller. -/
def linkReadable (principal : Principal) (tables : Tables) (link : LibraryLink) : Bool :=
  match findReadableResource principal tables link.toResourceId with
  | none => false
  | some target => (versionRow tables.versions target.id link.toVersion).isSome

/-- The `WHERE` clause of `_resolve_inner`. -/
def isCandidate (kind : LibraryKind) (stableKey : String) (projectId : Option Uuid)
    (resource : LibraryResource) : Bool :=
  resource.kind = kind && resource.stableKey = stableKey &&
    match projectId with
    | some id => resource.scope ≠ .project || resource.projectId = some id
    | none => resource.scope ≠ .project

/-- `visible`: what the caller may read, sorted by `_SCOPE_RANK`. -/
def visibleCandidates (principal : Principal) (tables : Tables) (kind : LibraryKind)
    (stableKey : String) (projectId : Option Uuid) : List LibraryResource :=
  [LibraryScope.user, .project, .studio].flatMap fun scope =>
    tables.resources.filter fun r =>
      r.scope = scope && isCandidate kind stableKey projectId r && canRead principal r

/-- The version `_resolve_inner` chooses, and where the choice is from. -/
def chosenVersion (locks : List ProjectLock) (projectId : Option Uuid)
    (effective : LibraryResource) : Int × VersionOrigin :=
  match projectId.bind fun id =>
      locks.find? fun lock => lock.projectId = id ∧ lock.resourceId = effective.id with
  | some lock => (lock.lockedVersion, .lock)
  | none => (effective.activeVersion, .active)

/-- `_resolve_inner`, with `_Unresolvable` as the `404` it becomes. -/
def resolveInner (tables : Tables) (locks : List ProjectLock) (principal : Principal)
    (kind : LibraryKind) (stableKey : String) (projectId : Option Uuid) :
    Except HttpError LibraryResolution :=
  match visibleCandidates principal tables kind stableKey projectId with
  | [] => .error definitionNotFound
  | effective :: _ =>
    let chosen := chosenVersion locks projectId effective
    if chosen.1 ≤ 0 then .error definitionNotFound
    else
      match versionRow tables.versions effective.id chosen.1 with
      | none => .error definitionNotFound
      | some target =>
        if (tables.linksOf target).all (linkReadable principal tables) then .ok
          { resourceId := effective.id
            kind := kind
            stableKey := effective.stableKey
            scope := effective.scope
            version := chosen.1
            versionOrigin := chosen.2
            deprecated := effective.status = LibraryStatus.deprecated }
        else .error definitionNotFound

def resolveDefinition (tables : Tables) (locks : List ProjectLock) (principal : Principal)
    (kind : LibraryKind) (stableKey : String) (projectId : Option Uuid) :
    Except HttpError LibraryResolution := do
  match projectId with
  | some id => ensureProjectAccess principal id "read"
  | none => pure ()
  resolveInner tables locks principal kind stableKey projectId

def bindingOf (link : LibraryLink) : NodeBinding :=
  { relation := link.relation
    targetResourceId := link.toResourceId
    targetVersion := link.toVersion }

def nodeOf (tables : Tables) (resource : LibraryResource) (row : LibraryVersion)
    (origin : VersionOrigin) : ResolutionNode :=
  { resourceId := resource.id
    kind := resource.kind
    stableKey := resource.stableKey
    scope := resource.scope
    version := row.version
    versionOrigin := origin
    deprecated := resource.status = LibraryStatus.deprecated
    title := row.title
    content := row.content
    bindings := (tables.linksOf row).map bindingOf }

/-- `_load_node`. A stored relation is one of `BindingRelation`. -/
def loadNode (principal : Principal) (tables : Tables) (resourceId : Uuid) (version : Int)
    (origin : VersionOrigin) : Except HttpError ResolutionNode :=
  match findReadableResource principal tables resourceId with
  | none => .error definitionNotFound
  | some resource =>
    match versionRow tables.versions resource.id version with
    | none => .error definitionNotFound
    | some row =>
      if (tables.linksOf row).all (linkReadable principal tables) then
        .ok (nodeOf tables resource row origin)
      else .error definitionNotFound

def loadPinned (principal : Principal) (tables : Tables) (binding : NodeBinding) :
    Except LoadHalt ResolutionNode :=
  refusing (loadNode principal tables binding.targetResourceId binding.targetVersion .pin)

/-- One turn of the loop over `agent_node.bindings`; `expand` loads what
is below a composed agent. -/
def loadBinding (principal : Principal) (tables : Tables)
    (expand : ResolutionNode → Except LoadHalt (List ResolutionNode)) (binding : NodeBinding) :
    Except LoadHalt (List ResolutionNode) := do
  let node ← loadPinned principal tables binding
  match node.kind with
  | .skill => return node :: (← node.bindings.mapM (loadPinned principal tables))
  | .agentDefinition => return node :: (← expand node)
  | .rule | .modelProfile | .workflow | .hook => return [node]

/-- `_load_composition_subgraph`. -/
def loadSubgraph (principal : Principal) (tables : Tables) :
    Nat → ResolutionNode → List Uuid → Nat → Except LoadHalt (List ResolutionNode)
  | 0, _, _, _ => .error .running
  | fuel + 1, agentNode, visited, depth =>
    if agentNode.resourceId ∈ visited ∨ depth > maxCompositionDepth then .ok []
    else do
      let nodes ← agentNode.bindings.mapM (loadBinding principal tables fun node =>
        loadSubgraph principal tables fuel node (agentNode.resourceId :: visited) (depth + 1))
      return nodes.flatten

/-- `profile_key`: the last model profile among the root's bindings. -/
def profileKey (root : ResolutionNode) (nodes : List ResolutionNode) :
    Option (LibraryKind × String) :=
  root.bindings.foldl (fun key binding =>
    if binding.relation = .requiresModelProfile then
      match nodes.find? (·.resourceId = binding.targetResourceId) with
      | some target => some (target.kind, target.stableKey)
      | none => key
    else key) none

/-- `resolve_full` up to its snapshot. -/
def loadSnapshot (tables : Tables) (locks : List ProjectLock)
    (loadCandidates : List (LibraryKind × String) → Except HttpError (List RuntimeCandidate))
    (principal : Principal) (kind : LibraryKind) (stableKey : String) (projectId : Option Uuid)
    (fuel : Nat) : Except LoadHalt AgentResolutionSnapshot := do
  let resolved ← refusing (resolveDefinition tables locks principal kind stableKey projectId)
  let root ← refusing
    (loadNode principal tables resolved.resourceId resolved.version resolved.versionOrigin)
  let nodes ← loadSubgraph principal tables fuel root [] 0
  let candidates ← refusing (loadCandidates ((kind, stableKey) :: (profileKey root nodes).toList))
  return { agent := root, nodes := nodes, runtimeCandidates := candidates }

/-- The answer of `resolve_full` that is not a definition: an
`HTTPException` raised while loading, or the one `_map_failure` makes of
the error of `resolve_agent`. -/
inductive FullHalt where
  | refused (error : HttpError)
  | failed (status : Nat) (errorCode : String) (details : List (String × Detail))
  | running

def mapFailure (error : ResolutionError) : FullHalt :=
  match error.errorCode with
  | .definitionNotFound | .unresolvableDependency => .refused definitionNotFound
  | .runtimeIncompatible => .failed 422 "runtime_incompatible" error.details
  | .compositionCycleDetected => .failed 422 "composition_cycle_detected" error.details
  | .compositionDepthExceeded => .failed 422 "composition_depth_exceeded" error.details
  | .invalidResolutionInput => .failed 422 "invalid_resolution_input" error.details

/-- The answer to what `resolve_agent` ended in. -/
def answered : Except Halt ResolvedAgentDefinition → Except FullHalt ResolvedAgentDefinition
  | .error (.failure e) => .error (mapFailure e)
  | .error .running => .error .running
  | .ok definition => .ok definition

def resolveFull (modelValidate : JsonValue → Option CapabilityRequirement) (tables : Tables)
    (locks : List ProjectLock)
    (loadCandidates : List (LibraryKind × String) → Except HttpError (List RuntimeCandidate))
    (principal : Principal) (kind : LibraryKind) (stableKey : String) (projectId : Option Uuid)
    (fuel : Nat) : Except FullHalt ResolvedAgentDefinition :=
  match loadSnapshot tables locks loadCandidates principal kind stableKey projectId fuel with
  | .error (.refused e) => .error (.refused e)
  | .error .running => .error .running
  | .ok snapshot => answered (resolveAgent modelValidate fuel snapshot)

end StudioOS.Resolution
