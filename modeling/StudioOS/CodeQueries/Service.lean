import StudioOS.CodeQueries.Index
import StudioOS.Library.Runs

/-!
# Code queries — Service

`CodeGraphService` between two awaits: `configure` under the lock of a workspace, the pumps of its
repositories, `forget`, and the queries, which take no lock. A call keeps the workspace object that
it took from the map, also when `forget` takes it out.

A provider's probe, what a freshness check finds, what the store has and when a build gets its slot
are chosen by the step.
-/

namespace StudioOS.CodeQueries

/-- A workspace object, in the order they are made. -/
abbrev ObjId := Nat

abbrev WorkspaceId := Nat

/-- What the service is built with: the ids of its providers, and the digest
of `_make_index`. A provider makes the id of a node or an edge from the name
of its repository; `owner` reads it off. -/
structure Env where
  texts : Texts
  providers : List Text
  fingerprint : Text → List (Text × Text) → Text
  owner : Text → Text

def sourceIdOf (providerId : Text) : Text := "code.".toList ++ providerId

/-- `RepoSnapshot`: what a provider built for a repository, as the store
keeps it. -/
structure RepoSnapshot (owner : Text → Text) where
  repoName : Text
  providerId : Text
  builtAt : Nat
  fingerprint : Text
  nodes : List GraphNode
  edges : List GraphEdge
  nodeIds : (nodes.map GraphNode.nodeId).Nodup
  edgeIds : (edges.map GraphEdge.edgeId).Nodup
  nodesOwned : ∀ node ∈ nodes, owner node.nodeId = repoName
  edgesOwned : ∀ edge ∈ edges, owner edge.edgeId = repoName
  kinds : ∀ node ∈ nodes, node.kind ∈ codeNodeKinds
  relations : ∀ edge ∈ edges, edge.kind ∈ codeRelations
  nodeSources : ∀ node ∈ nodes, node.sourceId = sourceIdOf providerId
  edgeSources : ∀ edge ∈ edges, edge.sourceId = sourceIdOf providerId
  endSources : ∀ edge ∈ edges,
    edge.source.sourceId = edge.sourceId ∧ edge.target.sourceId = edge.sourceId
  uris : ∀ node ∈ nodes, ∀ uri, node.uri = some uri → codeUri.isPrefixOf uri = true

/-- What `same_setup` compares. -/
structure Setup where
  root : Text
  includeGlobs : List Text
  excludeGlobs : List Text
  languages : List Text
deriving DecidableEq

structure CodeGraphConfig where
  providerId : Text
  repoNames : List Text
  languages : List Text
  includeGlobs : List Text
  excludeGlobs : List Text

/-- `LocalWorkspaceConfig`; `repoRoots` has the location of each repository. -/
structure LocalWorkspaceConfig where
  workspaceId : WorkspaceId
  codeGraphFeature : Bool
  codeGraph : Option CodeGraphConfig
  repoRoots : List (Text × Text)

/-! ## Repositories -/

/-- Where the pump of a repository is; a build has the provider that was
configured when it began to wait for its slot. -/
inductive Pump where
  | sleeping
  | queued (providerId : Text)
  | building (providerId : Text)

/-- `_Repo`. `unwinding` counts its cancelled builds that have not ended. -/
structure Repo (owner : Text → Text) where
  name : Text
  setup : Setup
  snapshot : Option (RepoSnapshot owner)
  corrupt : Bool
  stale : Bool
  missing : Bool
  building : Bool
  rerun : Bool
  failed : Bool
  pump : Option Pump
  unwinding : Nat

inductive RepoPhase where
  | missing | indexing | corrupt | failed | absent | stale | ready
deriving DecidableEq

/-- What happens to a repository, apart from a new snapshot. -/
inductive RepoAct where
  /-- A check, or a build, looks for the root. -/
  | looked (missing : Bool)
  /-- A check compares the files with the snapshot. -/
  | aged (stale : Bool)
  | schedule
  /-- The pump comes to its deadline. -/
  | wake
  /-- The build gets a slot. -/
  | begin_
  /-- A build ends without a snapshot: it fails, finds the old one up to
  date, or has no provider or no root. -/
  | failed
  | upToDate
  | nothing
  /-- A cancelled build ends. -/
  | unwind

section Repo

variable {owner : Text → Text}

/-- A repository of `_desired_repos`. -/
def Repo.fresh (name : Text) (setup : Setup) : Repo owner :=
  { name := name, setup := setup, snapshot := none, corrupt := false, stale := false,
    missing := false, building := false, rerun := false, failed := false, pump := none,
    unwinding := 0 }

def Repo.phase (repo : Repo owner) : RepoPhase :=
  if repo.missing then .missing
  else if repo.building then .indexing
  else if repo.corrupt then .corrupt
  else if repo.snapshot.isNone then (if repo.failed then .failed else .absent)
  else if repo.stale || repo.failed then .stale
  else .ready

/-- `_cancel_pump`. A cancelled build ends later (`unwind`). -/
def Repo.cancelPump (repo : Repo owner) : Repo owner :=
  match repo.pump with
  | some (.building _) => { repo with pump := none, unwinding := repo.unwinding + 1 }
  | _ => { repo with pump := none }

def Repo.schedule (repo : Repo owner) : Repo owner :=
  if repo.building then { repo with rerun := true }
  else { repo.cancelPump with pump := some .sleeping }

/-- The build has ended: the pump ends with it, or goes round again. -/
def Repo.endBuild (repo : Repo owner) : Repo owner :=
  { repo with building := false, pump := if repo.rerun then some .sleeping else none }

def Repo.act (provider : Option Text) (repo : Repo owner) : RepoAct → Option (Repo owner)
  | .looked missing => some { repo with missing := missing }
  | .aged stale => if repo.snapshot.isSome then some { repo with stale := stale } else none
  | .schedule => some repo.schedule
  | .wake =>
    match repo.pump with
    | some .sleeping => some { repo with rerun := false, pump := provider.map .queued }
    | _ => none
  | .begin_ =>
    match repo.pump with
    | some (.queued providerId) =>
      some { repo with pump := some (.building providerId), building := true }
    | _ => none
  | .failed =>
    match repo.pump with
    | some (.building _) => some { repo.endBuild with failed := true }
    | _ => none
  | .upToDate =>
    match repo.pump with
    | some (.building _) => some { repo.endBuild with stale := false, failed := false }
    | _ => none
  | .nothing =>
    match repo.pump with
    | some (.building _) => some repo.endBuild
    | _ => none
  | .unwind =>
    if 0 < repo.unwinding then
      some { repo with unwinding := repo.unwinding - 1, building := false }
    else none

/-- The snapshot of a build is stored. -/
def Repo.built (repo : Repo owner) (snapshot : RepoSnapshot owner) : Option (Repo owner) :=
  match repo.pump with
  | some (.building providerId) =>
    if snapshot.providerId = providerId ∧ snapshot.repoName = repo.name then
      some { repo.endBuild with
        snapshot := some snapshot, corrupt := false, stale := false, failed := false }
    else none
  | _ => none

end Repo

/-! ## Workspaces -/

/-- Where a `configure` that has the lock is. -/
inductive Configuring (owner : Text → Text) where
  /-- Loading the snapshot of a repository, with others still to look at. -/
  | loading (fresh : Repo owner) (rest : List (Repo owner))
  /-- The index is made; the provider is probed and the files are compared. -/
  | checking

structure Workspace (owner : Text → Text) where
  workspaceId : WorkspaceId
  config : Option LocalWorkspaceConfig
  invalid : Bool
  repos : List (Repo owner)
  index : Option CodeGraphIndex
  lock : Option (Configuring owner)

/-- What `_load_snapshot` reads. -/
inductive Load (owner : Text → Text) where
  | absent
  | corrupt
  | found (snapshot : RepoSnapshot owner)

/-- What happens to a workspace object. -/
inductive WorkspaceAct (owner : Text → Text) where
  /-- `configure` gets the lock. -/
  | configure (config : LocalWorkspaceConfig)
  | loaded (load : Load owner)
  /-- `configure` ends, or raises, and gives the lock back. -/
  | release
  /-- `apply_workspace_status`, of a workspace that is not valid. -/
  | invalidate
  | repo (name : Text) (act : RepoAct)
  /-- A build stores its snapshot, and the index is made. -/
  | built (name : Text) (snapshot : RepoSnapshot owner)
  /-- The same, of a repository that is no longer in the table. -/
  | detached

inductive ProbeState where
  | available | notInstalled | incompatible | unavailable

inductive ComponentState where
  | disabled | notInstalled | incompatible | unavailable | error | indexing | stale | ready
deriving DecidableEq

/-- `_SERVING_STATES`. -/
def ComponentState.serving (state : ComponentState) : Bool :=
  state ∈ [.ready, .stale, .indexing]

def Workspace.new {owner : Text → Text} (workspaceId : WorkspaceId) : Workspace owner :=
  { workspaceId := workspaceId, config := none, invalid := false, repos := [], index := none,
    lock := none }

section Workspace

variable (env : Env)

def Workspace.settings {owner : Text → Text} (ws : Workspace owner) : Option CodeGraphConfig :=
  ws.config.bind fun config => if config.codeGraphFeature then config.codeGraph else none

def Workspace.providerOf (ws : Workspace env.owner) : Option Text :=
  (ws.config.bind LocalWorkspaceConfig.codeGraph).bind fun settings =>
    if settings.providerId ∈ env.providers then some settings.providerId else none

def Workspace.snapshots {owner : Text → Text} (ws : Workspace owner) : List (RepoSnapshot owner) :=
  ws.repos.filterMap Repo.snapshot

def desiredRepos {owner : Text → Text} (config : LocalWorkspaceConfig)
    (settings : CodeGraphConfig) : List (Repo owner) :=
  let names := if settings.repoNames = [] then config.repoRoots.map Prod.fst
    else settings.repoNames
  names.eraseDups.filterMap fun name =>
    (config.repoRoots.lookup name).map fun root =>
      .fresh name
        { root := root
          includeGlobs := settings.includeGlobs
          excludeGlobs := settings.excludeGlobs
          languages := settings.languages }

def Workspace.makeIndex (ws : Workspace env.owner) : Option CodeGraphIndex :=
  match ws.providerOf env with
  | none => none
  | some providerId =>
    if ws.snapshots = [] then none
    else
      let named := (ws.snapshots.map fun snapshot =>
        (snapshot.repoName, snapshot.fingerprint)).insertionSort
          fun first second => first.1 ≤ second.1
      some (.make (sourceIdOf providerId) (env.fingerprint providerId named)
        (ws.snapshots.flatMap RepoSnapshot.nodes) (ws.snapshots.flatMap RepoSnapshot.edges))

/-- `ws.repos[repo.name] = repo`. -/
def Workspace.put {owner : Text → Text} (ws : Workspace owner) (repo : Repo owner) :
    Workspace owner :=
  { ws with
    repos :=
      if repo.name ∈ ws.repos.map Repo.name then
        ws.repos.map fun other => if other.name = repo.name then repo else other
      else ws.repos ++ [repo] }

def Workspace.dropRepos {owner : Text → Text} (ws : Workspace owner) (names : List Text) :
    Workspace owner :=
  { ws with repos := ws.repos.filter fun repo => repo.name ∉ names }

/-- The loop of `configure` up to the next snapshot it has to load; at the end
of the loop the index is made. -/
def Workspace.advance (ws : Workspace env.owner) : List (Repo env.owner) → Workspace env.owner
  | [] =>
    { ws with
      index := ws.makeIndex env
      lock := if (ws.providerOf env).isSome then some .checking else none }
  | fresh :: rest =>
    match ws.repos.find? fun repo => repo.name = fresh.name with
    | some current =>
      if current.setup = fresh.setup then ws.advance rest
      else { ws.dropRepos [fresh.name] with lock := some (.loading fresh rest) }
    | none => { ws with lock := some (.loading fresh rest) }

/-- `configure`, once it has the lock. -/
def Workspace.configure (ws : Workspace env.owner) (config : LocalWorkspaceConfig) :
    Workspace env.owner :=
  let taken := { ws with config := some config, invalid := false }
  match taken.settings with
  | none => { taken with repos := [], index := none }
  | some settings =>
    let desired : List (Repo env.owner) := desiredRepos config settings
    let dropped := taken.dropRepos ((taken.repos.map Repo.name).filter fun name =>
      name ∉ desired.map Repo.name)
    dropped.advance env desired

/-- `_load_snapshot`. -/
def Repo.loaded {owner : Text → Text} (repo : Repo owner) (providerId : Text) :
    Load owner → Repo owner
  | .absent => repo
  | .corrupt => { repo with corrupt := true }
  | .found snapshot =>
    if snapshot.repoName ≠ repo.name then { repo with corrupt := true }
    else if snapshot.providerId = providerId then { repo with snapshot := some snapshot }
    else repo

/-- Changes the repository of a name, if there is one and it can. -/
def Workspace.change {owner : Text → Text} (ws : Workspace owner) (name : Text)
    (f : Repo owner → Option (Repo owner)) : Option (Workspace owner) :=
  (ws.repos.find? fun repo => repo.name = name).bind fun repo => (f repo).map ws.put

def Workspace.act (ws : Workspace env.owner) : WorkspaceAct env.owner → Option (Workspace env.owner)
  | .configure config =>
    if ws.lock.isNone ∧ config.workspaceId = ws.workspaceId then some (ws.configure env config)
    else none
  | .loaded load =>
    match ws.lock, ws.config.bind LocalWorkspaceConfig.codeGraph with
    | some (.loading fresh rest), some settings =>
      some ((ws.put (fresh.loaded settings.providerId load)).advance env rest)
    | _, _ => none
  | .release => if ws.lock.isSome then some { ws with lock := none } else none
  | .invalidate =>
    if ws.lock.isNone then
      some { ws with invalid := true, repos := ws.repos.map Repo.cancelPump }
    else none
  | .repo name act => ws.change name fun repo => repo.act (ws.providerOf env) act
  | .built name snapshot =>
    (ws.change name fun repo => repo.built snapshot).map fun ws =>
      { ws with index := ws.makeIndex env }
  | .detached => some { ws with index := ws.makeIndex env }

/-- `_compose_index`; `none` is a `ValidationError` of a status that is READY
and does not say since when. -/
def Workspace.composeIndex {owner : Text → Text} (ws : Workspace owner) : Option ComponentState :=
  let phases := ws.repos.map Repo.phase
  if ws.repos = [] then some .unavailable
  else if .missing ∈ phases then some .unavailable
  else if .corrupt ∈ phases then some .error
  else if .failed ∈ phases then some .error
  else if .indexing ∈ phases then some .indexing
  else if .absent ∈ phases then some .unavailable
  else if .stale ∈ phases then some .stale
  else if ws.snapshots = [] then none
  else some .ready

def Workspace.compose (ws : Workspace env.owner) (probe : Option ProbeState) :
    Option ComponentState :=
  if ws.invalid then some .unavailable
  else
    match ws.settings with
    | none => some .disabled
    | some settings =>
      if settings.providerId ∉ env.providers then some .notInstalled
      else
        match probe with
        | none => some .notInstalled
        | some .notInstalled => some .notInstalled
        | some .incompatible => some .incompatible
        | some .unavailable => some .unavailable
        | some .available => ws.composeIndex

end Workspace

structure CodeSymbolQuery where
  workspaceId : WorkspaceId
  name : Text
  kinds : List NodeKind
  limit : Nat
  cursor : Option Text
  limit_le : limit ≤ maxSearchResults

structure GraphPageRequest where
  workspaceId : WorkspaceId
  limit : Nat
  cursor : Option Text
  nodeKinds : List NodeKind
  limit_le : limit ≤ maxPageLimit

structure GraphExpandRequest where
  workspaceId : WorkspaceId
  node : GraphNodeRef
  direction : GraphDirection
  relations : List RelationKind
  limit : Nat
  cursor : Option Text

inductive Query where
  | symbols (query : CodeSymbolQuery)
  | page (request : GraphPageRequest)
  | expand (request : GraphExpandRequest)

def Query.workspaceId : Query → WorkspaceId
  | .symbols query => query.workspaceId
  | .page request => request.workspaceId
  | .expand request => request.workspaceId

structure CodeSymbolResult where
  symbols : List CodeSymbolRef
  nextCursor : Option Text
  indexState : ComponentState
  complete : Bool

/-- The bound of its symbols, and `_partial_when_not_ready`. -/
def CodeSymbolResult.valid (result : CodeSymbolResult) : Bool :=
  result.symbols.length ≤ maxSearchResults && !(result.indexState ≠ .ready && result.complete)

inductive Result where
  | symbols (result : CodeSymbolResult)
  | graph (page : GraphPage)

def Outcome.bind {α β : Type} (outcome : Outcome α) (f : α → Outcome β) : Outcome β :=
  match outcome with
  | .answered answer => f answer
  | .refused => .refused
  | .raised error => .raised error

/-- `CodeSymbolResult(...)`. -/
def CodeSymbolResult.make (result : CodeSymbolResult) : Outcome Result :=
  if result.valid then .answered (.symbols result) else .raised .validationError

section Query

variable (env : Env)

def Workspace.source (ws : Workspace env.owner) (index : CodeGraphIndex) : Outcome GraphSource :=
  match ws.providerOf env with
  | none => .raised .assertionError
  | some providerId =>
    match ws.snapshots.map RepoSnapshot.builtAt with
    | [] => .raised .valueError
    | first :: rest =>
      .answered
        { sourceId := index.sourceId
          providerId := providerId
          workspaceId := ws.workspaceId
          generatedAt := rest.foldl max first
          indexFingerprint := index.fingerprint }

/-- `search_symbols`, of a servable workspace. -/
def Workspace.searchSymbols (ws : Workspace env.owner) (state : ComponentState)
    (query : CodeSymbolQuery) : Outcome Result :=
  match ws.index with
  | none =>
    ({ symbols := [], nextCursor := none, indexState := state, complete := false } :
      CodeSymbolResult).make
  | some index =>
    (index.search env.texts query.name query.kinds query.limit query.cursor).bind fun found =>
      ({ symbols := found.1, nextCursor := found.2, indexState := state,
         complete := state = .ready } : CodeSymbolResult).make

/-- `graph_page`, of a servable workspace. -/
def Workspace.graphPage (ws : Workspace env.owner) (request : GraphPageRequest) : Outcome Result :=
  match ws.index with
  | none => .refused
  | some index =>
    (ws.source env index).bind fun source =>
      (index.page env.texts source request.limit request.cursor request.nodeKinds).bind
        fun page => .answered (.graph page)

/-- `graph_expand`, of a servable workspace. -/
def Workspace.graphExpand (ws : Workspace env.owner) (request : GraphExpandRequest) :
    Outcome Result :=
  match ws.index with
  | none => .refused
  | some index =>
    (ws.source env index).bind fun source =>
      (index.expand env.texts source request.node.nodeId request.direction request.relations
        request.limit request.cursor).bind fun page => .answered (.graph page)

def Workspace.answer (ws : Workspace env.owner) (state : ComponentState) : Query → Outcome Result
  | .symbols query => ws.searchSymbols env state query
  | .page request => ws.graphPage env request
  | .expand request => ws.graphExpand env request

end Query

structure Ended where
  query : Query
  outcome : Outcome Result

structure Service (owner : Text → Text) where
  objects : ObjId → Workspace owner
  /-- How many there are. -/
  made : ObjId
  /-- `_workspaces`. -/
  current : WorkspaceId → Option ObjId
  /-- The snapshots that a load or a build has put into the table of each
  workspace. -/
  seen : WorkspaceId → List (RepoSnapshot owner)
  ended : List Ended

inductive Act (owner : Text → Text) where
  /-- `setdefault`, of a workspace that is not in the map. -/
  | create (workspaceId : WorkspaceId)
  | workspace (obj : ObjId) (act : WorkspaceAct owner)
  | forget (workspaceId : WorkspaceId)
  /-- A query comes to its end, with the object that it took when it began. -/
  | query (query : Query) (taken : Option ObjId) (probe : Option ProbeState)

def Service.start {owner : Text → Text} : Service owner :=
  { objects := fun _ => .new 0, made := 0, current := fun _ => none, seen := fun _ => [],
    ended := [] }

section Step

variable (env : Env)

/-- `_servable`: the status is the one of the object that the query took, and
the answer comes from the one that is in the map. -/
def Service.servable (s : Service env.owner) (workspaceId : WorkspaceId) (taken : Option ObjId)
    (probe : Option ProbeState) : Outcome (Workspace env.owner × ComponentState) :=
  match taken with
  | none => .refused
  | some obj =>
    match (s.objects obj).compose env probe with
    | none => .raised .validationError
    | some state =>
      match s.current workspaceId with
      | none => .refused
      | some obj => if state.serving then .answered (s.objects obj, state) else .refused

def Service.answer (s : Service env.owner) (query : Query) (taken : Option ObjId)
    (probe : Option ProbeState) : Outcome Result :=
  (s.servable env query.workspaceId taken probe).bind fun found =>
    found.1.answer env found.2 query

def step (s : Service env.owner) : Act env.owner → Option (Service env.owner)
  | .create workspaceId =>
    if (s.current workspaceId).isNone then
      some { s with
        objects := Function.update s.objects s.made (.new workspaceId)
        made := s.made + 1
        current := Function.update s.current workspaceId (some s.made) }
    else none
  | .workspace obj act =>
    if obj < s.made then
      ((s.objects obj).act env act).map fun ws =>
        { s with
          objects := Function.update s.objects obj ws
          seen := Function.update s.seen ws.workspaceId
            (ws.snapshots ++ s.seen ws.workspaceId) }
    else none
  | .forget workspaceId =>
    match s.current workspaceId with
    | none => some s
    | some obj =>
      some { s with
        objects := Function.update s.objects obj { s.objects obj with repos := [] }
        current := Function.update s.current workspaceId none }
  | .query query taken probe =>
    if taken.all fun obj => obj < s.made ∧ (s.objects obj).workspaceId = query.workspaceId then
      some { s with
        ended := { query := query, outcome := s.answer env query taken probe } :: s.ended }
    else none

end Step

end StudioOS.CodeQueries
