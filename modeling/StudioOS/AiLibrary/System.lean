import StudioOS.AiLibrary.Model
import StudioOS.Library.Runs

/-!
# AI library — System

`create_resource`, `create_resource_version`, `activate_resource_version` and `deprecate_resource`
under concurrent callers. A step of a caller is one statement with the decisions that follow it; it
sees the committed rows and the rows its own transaction has inserted. `create_resource_version`
locks the row of its resource, and an `UPDATE` of that row waits for the lock.
-/

namespace StudioOS.AiLibrary

open Authz Resolution Runs

/-- What the services ask of the rest of Studio: the projects, and the
three validators of a version (`content_validation_errors`,
`workflow_validation_errors`, `hook_validation_errors`), as the error
they raise. -/
structure Surroundings where
  projectExists : Uuid → Bool
  validation : LibraryKind → Content → List DependencyPin → Option HttpError

inductive Call where
  | createResource (principal : Principal) (data : LibraryResourceCreate)
  | createResourceVersion (principal : Principal) (resourceId : Uuid)
      (data : LibraryVersionCreate)
  | activateResourceVersion (principal : Principal) (resourceId : Uuid)
      (version expectedResourceVersion : Int)
  | deprecateResource (principal : Principal) (resourceId : Uuid) (expectedResourceVersion : Int)

def Call.principal : Call → Principal
  | .createResource principal _ | .createResourceVersion principal ..
  | .activateResourceVersion principal .. | .deprecateResource principal .. => principal

def Call.resourceId : Call → Option Uuid
  | .createResource .. => none
  | .createResourceVersion _ resourceId _ | .activateResourceVersion _ resourceId ..
  | .deprecateResource _ resourceId _ => some resourceId

inductive Phase where
  /-- `create_resource` past its checks. -/
  | checked (projectId : Option Uuid)
  /-- `create_resource` past the `INSERT` of the resource. -/
  | inserted (resource : LibraryResource)
  /-- The row that `get_resource` loaded. -/
  | loaded (resource : LibraryResource)
  /-- `create_resource_version` past its `FOR UPDATE`. -/
  | locked (resource : LibraryResource)
  /-- `_create_version_row` past the `INSERT` of the version, with the
  pins it has still to bind. -/
  | binding (draft : Draft) (pins : List DependencyPin)
  /-- `_resolve_pin` has found the target of the pin. -/
  | targeted (draft : Draft) (pin : DependencyPin) (target : LibraryResource)
      (pins : List DependencyPin)
  /-- `activate_resource_version`, `deprecate_resource`: the attributes
  are assigned, the `UPDATE` is to come. -/
  | assigned (loaded assigned : LibraryResource)
  /-- The call returned; `true` when it wrote. -/
  | done (result : Except HttpError Bool)

/-- What the call answered, once it returned. -/
def Phase.result : Phase → Option (Except HttpError Bool)
  | .done result => some result
  | .checked _ | .inserted _ | .loaded _ | .locked _ | .binding .. | .targeted .. | .assigned .. =>
    none

structure Caller where
  call : Call
  phase : Phase

/-- `locks` are the row locks on `library_resources`, `staged` the
resources of transactions that have not committed, `issued` the ids
`uuid4` has given out. `writes` lists the versions written to the
resource rows, in the order of the commits. -/
structure State where
  tables : Tables
  callers : Nat → Option Caller
  locks : Uuid → Option Nat
  staged : List (Nat × LibraryResource)
  issued : List Uuid
  writes : List (Uuid × Int)

def State.initial : State :=
  { tables := { resources := [], versions := [], links := [] }
    callers := fun _ => none, locks := fun _ => none, staged := [], issued := [], writes := [] }

variable (env : Surroundings)

/-! ## The steps of a caller -/

def State.setPhase (s : State) (c : Nat) (k : Caller) (phase : Phase) : State :=
  { s with callers := Function.update s.callers c (some { k with phase := phase }) }

/-- The transaction ends and the call returns. -/
def State.finish (s : State) (c : Nat) (k : Caller) (result : Except HttpError Bool) : State :=
  { s with
    callers := Function.update s.callers c (some { k with phase := .done result })
    locks := fun id => if s.locks id = some c then none else s.locks id
    staged := s.staged.filter (·.1 ≠ c) }

/-- The resources a query of the caller sees. -/
def State.seenResources (s : State) (c : Nat) : List LibraryResource :=
  s.tables.resources ++ (s.staged.filter (·.1 = c)).map (·.2)

/-- The router's part: the row is loaded and the caller authorized. -/
def loadFor (principal : Principal) (tables : Tables) (resourceId : Uuid) :
    Except HttpError LibraryResource := do
  let resource ← getResource principal tables resourceId
  authorizeWrite principal resource
  return resource

/-- A call on a stored resource begins with its row. -/
def loadedPhase (principal : Principal) (tables : Tables) (resourceId : Uuid) : Phase :=
  match loadFor principal tables resourceId with
  | .error e => .done (.error e)
  | .ok resource => .loaded resource

def Call.firstPhase (call : Call) (tables : Tables) : Phase :=
  match call with
  | .createResource principal data =>
    match checkCreate env.projectExists principal data with
    | .error e => .done (.error e)
    | .ok projectId => .checked projectId
  | .createResourceVersion principal resourceId _
  | .activateResourceVersion principal resourceId ..
  | .deprecateResource principal resourceId _ => loadedPhase principal tables resourceId

def duplicateStableKey : HttpError :=
  { status := 409, detail := [("error_code", "duplicate_stable_key")] }

/-- The flush of the new resource. It waits for a transaction that has
inserted a row of the same key. -/
def State.insertResource (s : State) (c : Nat) (k : Caller) (id : Uuid) : Option State :=
  match k.call, k.phase with
  | .createResource principal data, .checked projectId =>
    let row := newResource principal data projectId id
    if id ∈ s.issued ∨ s.staged.any (fun entry => sameKey entry.2 row) then none
    else if s.tables.resources.any (sameKey · row) then
      some (State.finish { s with issued := id :: s.issued } c k (.error duplicateStableKey))
    else
      some (State.setPhase
        { s with staged := (c, row) :: s.staged, issued := id :: s.issued } c k (.inserted row))
  | _, _ => none

/-- `create_resource_version` up to its `FOR UPDATE`. -/
def State.lock (s : State) (c : Nat) (k : Caller) : Option State :=
  match k.call, k.phase with
  | .createResourceVersion principal _ _, .loaded resource =>
    match ensureOwnerOrAdmin principal resource with
    | .error e => some (s.finish c k (.error e))
    | .ok _ =>
      if s.locks resource.id = none then
        some (State.setPhase
          { s with locks := Function.update s.locks resource.id (some c) } c k
          (.locked resource))
      else none
  | _, _ => none

/-- What `_create_version_row` is called with: the resource, the version
number and the data. Under the row lock the maximum stands until the
`INSERT`. -/
def versionInput (tables : Tables) (k : Caller) :
    Option (LibraryResource × Int × LibraryVersionCreate) :=
  match k.call, k.phase with
  | .createResource _ data, .inserted resource =>
    some (resource, 1,
      { title := data.title, content := data.content, dependencies := data.dependencies })
  | .createResourceVersion _ _ data, .locked resource =>
    some (resource, maxVersion tables.versions resource.id + 1, data)
  | _, _ => none

/-- The validation and the flush of the new version. -/
def State.insertVersion (s : State) (c : Nat) (k : Caller) (id : Uuid) : Option State :=
  match versionInput s.tables k with
  | none => none
  | some (resource, version, data) =>
    match env.validation resource.kind data.content data.dependencies with
    | some e => some (s.finish c k (.error e))
    | none =>
      if id ∈ s.issued then none
      else
        some (State.setPhase { s with issued := id :: s.issued } c k
          (.binding
            { resource := resource
              row := { id := id, resourceId := resource.id, version := version
                       title := data.title, content := data.content } }
            data.dependencies))

/-- `_resolve_pin` for the next pin. -/
def State.resolvePin (s : State) (c : Nat) (k : Caller) : Option State :=
  match k.phase with
  | .binding draft (pin :: pins) =>
    match AiLibrary.resolvePin k.call.principal (s.seenResources c) pin with
    | .error e => some (s.finish c k (.error e))
    | .ok target => some (s.setPhase c k (.targeted draft pin target pins))
  | _ => none

/-- `_version_row` for the pin, and the checks of the binding. The
version being created has been flushed, and is seen. -/
def State.findVersion (s : State) (c : Nat) (k : Caller) : Option State :=
  match k.phase with
  | .targeted draft pin target pins =>
    match versionRow (s.tables.versions ++ [draft.row]) target.id pin.version with
    | none => some (s.finish c k (.error (pinVersionNotFound pin)))
    | some _ =>
      match draft.bind pin target with
      | .error e => some (s.finish c k (.error e))
      | .ok next => some (s.setPhase c k (.binding next pins))
  | _ => none

/-- The rows of a new version. -/
def Tables.addVersion (tables : Tables) (draft : Draft) : Tables :=
  { tables with
    versions := tables.versions ++ [draft.row]
    links := tables.links ++ draft.links }

/-- `UPDATE library_resources` in the tables. -/
def Tables.update (tables : Tables) (loaded assigned : LibraryResource) : Tables :=
  { tables with resources := updateResource tables.resources loaded assigned }

def Tables.addResource (tables : Tables) (resource : LibraryResource) : Tables :=
  { tables with resources := tables.resources ++ [resource] }

/-- The commit of a creation. A new version also writes the row of its
resource. -/
def State.commit (s : State) (c : Nat) (k : Caller) : Option State :=
  match k.call, k.phase with
  | .createResource .., .binding draft [] =>
    some (State.finish
      { s with tables := (s.tables.addResource draft.resource).addVersion draft } c k (.ok true))
  | .createResourceVersion .., .binding draft [] =>
    some (State.finish
      { s with
        tables := (s.tables.update draft.resource draft.resource.bumped).addVersion draft
        writes := s.writes ++ [(draft.resource.id, draft.resource.bumped.version)] }
      c k (.ok true))
  | _, _ => none

/-- The decision of an activation or a deprecation on the loaded row. -/
def Call.decision (call : Call) (versions : List LibraryVersion) (resource : LibraryResource) :
    Option (Except HttpError (Option LibraryResource)) :=
  match call with
  | .activateResourceVersion principal _ version expected =>
    some (checkActivate principal versions resource version expected)
  | .deprecateResource principal _ expected => some (checkDeprecate principal resource expected)
  | .createResource .. | .createResourceVersion .. => none

/-- What follows a decision: an error, the no-op, or the assignment. -/
def State.conclude (s : State) (c : Nat) (k : Caller) (resource : LibraryResource) :
    Except HttpError (Option LibraryResource) → State
  | .error e => s.finish c k (.error e)
  | .ok none => s.finish c k (.ok false)
  | .ok (some assigned) => s.setPhase c k (.assigned resource assigned)

/-- An activation or a deprecation up to its assignments. -/
def State.check (s : State) (c : Nat) (k : Caller) : Option State :=
  match k.phase with
  | .loaded resource =>
    (k.call.decision s.tables.versions resource).map (s.conclude c k resource)
  | _ => none

/-- The `UPDATE` and the commit of an activation or a deprecation. -/
def State.write (s : State) (c : Nat) (k : Caller) : Option State :=
  match k.phase with
  | .assigned loaded assigned =>
    if s.locks loaded.id = none then
      some (State.finish
        { s with
          tables := s.tables.update loaded assigned
          writes := s.writes ++ [(loaded.id, assigned.version)] }
        c k (.ok true))
    else none
  | _ => none

inductive Act where
  | call (c : Nat) (call : Call)
  | insertResource (c : Nat) (id : Uuid)
  | lock (c : Nat)
  | insertVersion (c : Nat) (id : Uuid)
  | resolvePin (c : Nat)
  | findVersion (c : Nat)
  | commit (c : Nat)
  | check (c : Nat)
  | write (c : Nat)

def Act.caller : Act → Nat
  | .call c _ | .insertResource c _ | .lock c | .insertVersion c _ | .resolvePin c
  | .findVersion c | .commit c | .check c | .write c => c

/-- A step of a caller that has begun. -/
def State.advance (s : State) (act : Act) (k : Caller) : Option State :=
  match act with
  | .call .. => none
  | .insertResource c id => s.insertResource c k id
  | .lock c => s.lock c k
  | .insertVersion c id => s.insertVersion env c k id
  | .resolvePin c => s.resolvePin c k
  | .findVersion c => s.findVersion c k
  | .commit c => s.commit c k
  | .check c => s.check c k
  | .write c => s.write c k

def step (s : State) (act : Act) : Option State :=
  match s.callers act.caller, act with
  | none, .call c call =>
    some { s with
      callers := Function.update s.callers c
        (some { call := call, phase := call.firstPhase env s.tables }) }
  | none, _ => none
  | some k, act => s.advance env act k

end StudioOS.AiLibrary
