import Mathlib.Data.Finmap
import StudioOS.Library.Runs

/-!
# Code graph — Model

The service that keeps a provider's graph of each repository: requests and Git events schedule the
pump of a repository, a pump waits for its deadline and for a build slot, and a build reads the
files, asks the provider and stores a snapshot. A freshness check compares the files with the
snapshot's digest.
-/

namespace StudioOS.CodeGraph

/-- `RepoFiles`: the code-relevant files of a repository, by path. -/
abbrev Tree := Finmap fun _ : String => String

/-- What the service is built with. -/
structure Env (ι ω D G : Type) where
  workspace : ι → ω
  /-- `max_concurrent_builds`. -/
  slots : Nat
  debounce : Nat
  /-- `RepoFiles.digest`. -/
  digest : Tree → D
  /-- `CodeGraphProvider.build`. -/
  build : Tree → G
  /-- The graph without nodes. -/
  empty : G

/-- The graph of the files: the provider is not asked where there are none. -/
def Env.graphOf {ι ω D G : Type} (env : Env ι ω D G) (tree : Tree) : G :=
  if tree = ∅ then env.empty else env.build tree

/-- `RepoSnapshot`. It is content-addressed if it has the digest of files. -/
structure Snapshot (D G : Type) where
  fingerprint : Option D
  graph : G

/-- Where a pump is. -/
inductive Phase (D G : Type) where
  /-- Before its deadline, or about to look at it. -/
  | pending
  /-- In the queue for a slot, with the flag it consumed. -/
  | waiting (full : Bool)
  /-- Probing, and reading the files. -/
  | reading (full : Bool)
  /-- The provider builds; `seen` is what it has read. -/
  | building (files : Option Tree) (seen : Tree)
  | saving (snapshot : Snapshot D G)

/-- The pump holds a slot: `repo.building`. -/
def Phase.holds {D G : Type} : Phase D G → Bool
  | .pending => false
  | .waiting _ => false
  | _ => true

/-- A freshness check that is under way. -/
inductive Check (D : Type) where
  /-- Looking for the root. -/
  | looking
  /-- Reading the files, to compare them with a digest. -/
  | reading (fingerprint : D)
  | answered (fingerprint : D) (files : Option Tree)

structure Repo (D G : Type) where
  snapshot : Option (Snapshot D G)
  corrupt : Bool
  stale : Bool
  missing : Bool
  failed : Bool
  rerun : Bool
  full : Bool
  deadline : Nat
  pump : Option (Phase D G)
  checks : List (Check D)
  /-- The files of the last answer of a check, unless a build ended since. -/
  checkedOn : Option Tree

def Repo.building {D G : Type} (repo : Repo D G) : Bool := repo.pump.any Phase.holds

inductive RepoPhase where
  | missing | indexing | corrupt | failed | absent | stale | ready
deriving DecidableEq

def Repo.phase {D G : Type} (repo : Repo D G) : RepoPhase :=
  if repo.missing then .missing
  else if repo.building then .indexing
  else if repo.corrupt then .corrupt
  else if repo.snapshot.isNone then (if repo.failed then .failed else .absent)
  else if repo.stale || repo.failed then .stale
  else .ready

/-- The accepted requests of a repository that no build answered yet. -/
structure Owed where
  /-- A full rebuild, that no full build started after. -/
  full : Bool
  /-- An incremental one, that no build started after. -/
  check : Bool
  /-- The same, once such a build started, until it reads the files. -/
  unread : Bool

def Owed.nothing : Owed := { full := false, check := false, unread := false }

structure State (ι ω D G : Type) where
  clock : Nat
  tree : ι → Tree
  repos : ι → Option (Repo D G)
  disk : ι → Option (Snapshot D G)
  /-- The graphs of the query index of the workspaces. -/
  served : ι → Option G
  /-- `configure` has the lock, and has not made the index yet. -/
  configuring : ω → Bool
  /-- The slots in use, and those of cancelled builds among them. -/
  held : Nat
  orphans : Nat
  owed : ι → Owed

inductive Act (ι ω : Type) where
  | tick (n : Nat)
  | write (i : ι) (path : String) (blob : Option String)
  | configure (w : ω)
  /-- The repository leaves the configuration; the thread that writes its
  snapshot may still end. -/
  | drop (i : ι) (written : Bool)
  | load (i : ι) (readable : Bool)
  | index (w : ω)
  /-- What `configure` schedules after its freshness check. -/
  | refresh (i : ι)
  | reindex (i : ι) (full : Bool)
  | gitChange (i : ι)
  /-- What `on_git_change` schedules after its freshness check. -/
  | gitSchedule (i : ι)
  | checkStart (i : ι)
  | checkLook (i : ι) (k : Nat) (present : Bool)
  | checkRead (i : ι) (k : Nat) (readable : Bool)
  | checkEnd (i : ι) (k : Nat)
  | pump (i : ι)
  | acquire (i : ι)
  /-- No provider, or no root. -/
  | abandon (i : ι) (missing : Bool)
  | read (i : ι) (readable : Bool)
  /-- The provider reads a file. -/
  | see (i : ι) (path : String)
  | built (i : ι) (ok : Bool)
  | saved (i : ι) (ok : Bool)
  /-- A cancelled build gives its slot back. -/
  | unwind

/-- The file as it is in another tree. -/
def Tree.reread (seen current : Tree) (path : String) : Tree :=
  match current.lookup path with
  | some blob => seen.insert path blob
  | none => seen.erase path

def Tree.write (tree : Tree) (path : String) : Option String → Tree
  | some blob => tree.insert path blob
  | none => tree.erase path

section Step

variable {ι ω D G : Type} [DecidableEq ι] [DecidableEq ω] [DecidableEq D] (env : Env ι ω D G)

def State.setRepo (s : State ι ω D G) (i : ι) (repo : Repo D G) : State ι ω D G :=
  { s with repos := Function.update s.repos i (some repo) }

/-- A repository as `configure` loads it. -/
def Repo.loaded (snapshot : Option (Snapshot D G)) (corrupt : Bool) : Repo D G :=
  { snapshot := snapshot, corrupt := corrupt, stale := false, missing := false, failed := false,
    rerun := false, full := false, deadline := 0, pump := none, checks := [], checkedOn := none }

def Repo.schedule (repo : Repo D G) (clock delay : Nat) (full : Bool) : Repo D G :=
  let asked := { repo with full := repo.full || full, deadline := clock + delay }
  if repo.building then { asked with rerun := true }
  else { asked with pump := some .pending }

/-- `_make_index`, of one workspace. -/
def State.makeIndex (s : State ι ω D G) (w : ω) : State ι ω D G :=
  { s with
    served := fun i =>
      if env.workspace i = w then
        (s.repos i).bind fun repo => repo.snapshot.map Snapshot.graph
      else s.served i }

/-- A build of the repository starts. -/
def State.start (s : State ι ω D G) (i : ι) (repo : Repo D G) (full : Bool) : State ι ω D G :=
  let started := s.setRepo i { repo with pump := some (.reading full) }
  { started with
    held := s.held + 1
    owed := Function.update s.owed i
      { full := (s.owed i).full && !full
        check := false
        unread := (s.owed i).check || (s.owed i).unread } }

/-- The end of `_build`: the pump goes on or ends. -/
def Repo.finish (repo : Repo D G) : Repo D G :=
  { repo with pump := if repo.rerun then some .pending else none, checkedOn := none }

def State.finish (s : State ι ω D G) (i : ι) (repo : Repo D G) : State ι ω D G :=
  { s.setRepo i repo.finish with held := s.held - 1 }

/-- Nothing to build: the files have the digest of the snapshot. -/
def Repo.upToDate (repo : Repo D G) (full : Bool) (files : Option Tree) : Bool :=
  !full && !repo.corrupt &&
    repo.snapshot.any fun previous => files.any fun tree =>
      previous.fingerprint = some (env.digest tree)

/-- `_build_locked`, once the files are read. -/
def State.readFiles (s : State ι ω D G) (i : ι) (repo : Repo D G) (full : Bool)
    (files : Option Tree) : State ι ω D G :=
  if repo.upToDate env full files then
    s.finish i { repo with stale := false, failed := false }
  else if files = some ∅ then
    s.setRepo i
      { repo with
        pump := some (.saving { fingerprint := files.map env.digest, graph := env.empty }) }
  else s.setRepo i { repo with pump := some (.building files (s.tree i)) }

/-- The answer of a freshness check. -/
def Repo.answer (repo : Repo D G) (fingerprint : D) (files : Option Tree) : Repo D G :=
  { repo with
    stale := files.any fun tree => env.digest tree ≠ fingerprint
    checkedOn := files }

def step (s : State ι ω D G) : Act ι ω → Option (State ι ω D G)
  | .tick n => some { s with clock := s.clock + n }
  | .write i path blob =>
    some { s with tree := Function.update s.tree i (Tree.write (s.tree i) path blob) }
  | .configure w =>
    if s.configuring w then none
    else some { s with configuring := Function.update s.configuring w true }
  | .drop i written =>
    (s.repos i).map fun repo =>
      let dropped :=
        { s with
          repos := Function.update s.repos i none
          owed := Function.update s.owed i .nothing
          orphans := if repo.building then s.orphans + 1 else s.orphans }
      match repo.pump with
      | some (.saving snapshot) =>
        if written then { dropped with disk := Function.update s.disk i (some snapshot) }
        else dropped
      | _ => dropped
  | .load i readable =>
    if s.configuring (env.workspace i) && (s.repos i).isNone then
      some (s.setRepo i (if readable then .loaded (s.disk i) false else .loaded none true))
    else none
  | .index w =>
    if s.configuring w then
      some { s.makeIndex env w with configuring := Function.update s.configuring w false }
    else none
  | .refresh i =>
    (s.repos i).bind fun repo =>
      if repo.snapshot.isNone || repo.corrupt || repo.stale then
        some (s.setRepo i (repo.schedule s.clock 0 repo.corrupt))
      else none
  | .reindex i full =>
    (s.repos i).map fun repo =>
      { s.setRepo i (repo.schedule s.clock 0 full) with
        owed := Function.update s.owed i
          { s.owed i with
            full := (s.owed i).full || full
            check := (s.owed i).check || !full } }
  | .gitChange i =>
    (s.repos i).map fun repo =>
      if repo.building then
        s.setRepo i { repo with rerun := true, deadline := s.clock + env.debounce }
      else s.setRepo i { repo with checks := repo.checks ++ [.looking] }
  | .gitSchedule i =>
    (s.repos i).bind fun repo =>
      if repo.snapshot.isNone || repo.stale then
        some (s.setRepo i (repo.schedule s.clock env.debounce false))
      else none
  | .checkStart i =>
    (s.repos i).bind fun repo =>
      if repo.building then none
      else some (s.setRepo i { repo with checks := repo.checks ++ [.looking] })
  | .checkLook i k present =>
    (s.repos i).bind fun repo =>
      match repo.checks[k]? with
      | some .looking =>
        let looked := { repo with missing := !present, checks := repo.checks.eraseIdx k }
        if present then
          match repo.snapshot with
          | none => some (s.setRepo i looked)
          | some snapshot =>
            match snapshot.fingerprint with
            | none => some (s.setRepo i { looked with stale := false })
            | some fingerprint =>
              some (s.setRepo i
                { looked with checks := repo.checks.set k (.reading fingerprint) })
        else some (s.setRepo i looked)
      | _ => none
  | .checkRead i k readable =>
    (s.repos i).bind fun repo =>
      match repo.checks[k]? with
      | some (.reading fingerprint) =>
        let files := if readable then some (s.tree i) else none
        some (s.setRepo i
          { repo with checks := repo.checks.set k (.answered fingerprint files) })
      | _ => none
  | .checkEnd i k =>
    (s.repos i).bind fun repo =>
      match repo.checks[k]? with
      | some (.answered fingerprint files) =>
        some (s.setRepo i
          ({ repo with checks := repo.checks.eraseIdx k }.answer env fingerprint files))
      | _ => none
  | .pump i =>
    (s.repos i).bind fun repo =>
      match repo.pump with
      | some .pending =>
        if s.clock < repo.deadline then none
        else
          -- the flags are consumed, and the slot is taken if there is one
          let taken := { repo with full := false, rerun := false }
          if s.held < env.slots then some (s.start i taken repo.full)
          else some (s.setRepo i { taken with pump := some (.waiting repo.full) })
      | _ => none
  | .acquire i =>
    (s.repos i).bind fun repo =>
      match repo.pump with
      | some (.waiting full) => if s.held < env.slots then some (s.start i repo full) else none
      | _ => none
  | .abandon i missing =>
    (s.repos i).bind fun repo =>
      match repo.pump with
      | some (.reading _) =>
        some (s.finish i (if missing then { repo with missing := true } else repo))
      | _ => none
  | .read i readable =>
    (s.repos i).bind fun repo =>
      match repo.pump with
      | some (.reading full) =>
        let reading :=
          { s with owed := Function.update s.owed i { s.owed i with unread := false } }
        some (reading.readFiles env i { repo with missing := false } full
          (if readable then some (s.tree i) else none))
      | _ => none
  | .see i path =>
    (s.repos i).bind fun repo =>
      match repo.pump with
      | some (.building files seen) =>
        some (s.setRepo i
          { repo with pump := some (.building files (Tree.reread seen (s.tree i) path)) })
      | _ => none
  | .built i ok =>
    (s.repos i).bind fun repo =>
      match repo.pump with
      | some (.building files seen) =>
        if ok then
          some (s.setRepo i
            { repo with
              pump := some (.saving
                { fingerprint := files.map env.digest, graph := env.build seen }) })
        else some (s.finish i { repo with failed := true })
      | _ => none
  | .saved i ok =>
    (s.repos i).bind fun repo =>
      match repo.pump with
      | some (.saving snapshot) =>
        if ok then
          let installed :=
            (s.finish i
              { repo with snapshot := some snapshot, corrupt := false, stale := false,
                          failed := false })
          some
            ({ installed with disk := Function.update s.disk i (some snapshot) }.makeIndex env
              (env.workspace i))
        else some (s.finish i { repo with failed := true })
      | _ => none
  | .unwind =>
    if 0 < s.orphans then some { s with orphans := s.orphans - 1, held := s.held - 1 } else none

def State.initial (tree : ι → Tree) : State ι ω D G :=
  { clock := 0
    tree := tree
    repos := fun _ => none
    disk := fun _ => none
    served := fun _ => none
    configuring := fun _ => false
    held := 0
    orphans := 0
    owed := fun _ => .nothing }

/-- `wait_idle`: no pump is left, and no configuration is under way. -/
structure State.Idle (s : State ι ω D G) : Prop where
  pumps : ∀ i repo, s.repos i = some repo → repo.pump = none
  configured : ∀ w, s.configuring w = false

end Step

end StudioOS.CodeGraph
