import Mathlib.Data.List.Dedup
import StudioOS.Authz
import StudioOS.Worktrees.Git

/-!
# Retention — which worktrees a cleanup removes

`daemon/worktree_retention.py`: `plan_cleanup` reads git and gives every
worktree a verdict; `apply_cleanup` reads it again, compares the digests and
removes the candidates, with the branches they had checked out.
-/

namespace StudioOS.Worktrees

inductive Verdict where
  | candidate
  | excluded
deriving DecidableEq

/-- `REASONS`, in the order of the source. -/
inductive Reason where
  | activeSession
  | dirty
  | locked
  | mainWorktree
  | unmanaged
  | unpushed
deriving DecidableEq

def Reason.text : Reason → String
  | .activeSession => "active_session"
  | .dirty => "dirty"
  | .locked => "locked"
  | .mainWorktree => "main_worktree"
  | .unmanaged => "unmanaged"
  | .unpushed => "unpushed"

def reasons : List Reason := [.activeSession, .dirty, .locked, .mainWorktree, .unmanaged, .unpushed]

def Verdict.text : Verdict → String
  | .candidate => "candidate"
  | .excluded => "excluded"

/-- What ends a call: a `RetentionError` with its reason and message, or an exception of the
operating system. -/
inductive Failure where
  | retention (reason message : String)
  | osError

structure CleanupEntry where
  path : String
  branch : Option String
  taskIdPrefix : Option String
  verdict : Verdict
  reasons : List Reason

structure CleanupPlan where
  repoRoot : String
  entries : List CleanupEntry
  activeTaskIds : List Uuid
  digest : String

def CleanupPlan.candidates (plan : CleanupPlan) : List CleanupEntry :=
  plan.entries.filter fun entry => entry.verdict = .candidate

structure CleanupResult where
  removed : List String
  deletedBranches : List String
  refused : List String

structure Env where
  /-- `str(Path(path).resolve())`. -/
  resolve : String → String
  /-- `str(Path(path).parent)`. -/
  parent : String → String
  /-- `Path(path).name`. -/
  name : String → String
  /-- `normcase(abspath(path))`. -/
  normalized : String → String
  sha256 : String → String

abbrev GitRunner := Command → String → Option GitResult

def runGit (runner : GitRunner) (command : Command) (cwd : String) : Except Failure GitResult :=
  match runner command cwd with
  | none => .error .osError
  | some result => .ok result

structure WorktreeEntry where
  path : String
  branch : Option String

/-- The rest of a line behind its keyword, stripped. -/
def valueOf (keyword : String) (line : List Char) : String :=
  String.ofList (Text.strip (line.drop keyword.length))

/-- `ref[len("refs/heads/"):] if ref.startswith("refs/heads/") else ref`. -/
def branchOf (ref : String) : String :=
  if "refs/heads/".toList.isPrefixOf ref.toList then
    String.ofList (ref.toList.drop "refs/heads/".length)
  else ref

/-- The loop of `_parse_worktrees`. -/
def parseLines (path branch : Option String) : List (List Char) → List WorktreeEntry
  | [] => path.toList.map fun path => { path, branch }
  | line :: rest =>
    if "worktree ".toList.isPrefixOf line then
      (path.toList.map fun path => { path, branch : WorktreeEntry }) ++
        parseLines (some (valueOf "worktree " line)) none rest
    else if "branch ".toList.isPrefixOf line then
      parseLines path (some (branchOf (valueOf "branch " line))) rest
    else parseLines path branch rest

def parseWorktrees (porcelain : String) : List WorktreeEntry :=
  parseLines none none (Text.splitlines porcelain.toList)

/-- The loop of `_locked_paths`. -/
def lockedLines (env : Env) (current : Option String) : List (List Char) → List String
  | [] => []
  | line :: rest =>
    if "worktree ".toList.isPrefixOf line then
      lockedLines env (some (valueOf "worktree " line)) rest
    else if "locked".toList.isPrefixOf line then
      current.toList.map env.normalized ++ lockedLines env current rest
    else lockedLines env current rest

def lockedPaths (env : Env) (porcelain : String) : List String :=
  lockedLines env none (Text.splitlines porcelain.toList)

def isHex (c : Char) : Bool := ('0' ≤ c && c ≤ '9') || ('a' ≤ c && c ≤ 'f')

/-- `_TASK_KEY.match`; `$` also matches in front of a newline at the end. -/
def isTaskKey (text : List Char) : Bool :=
  let body := if text.getLast? = some '\n' then text.dropLast else text
  body.length = 8 ∧ body.all isHex

def worktreeSuffix : String := "-wt-"

def managedTaskKey (env : Env) (path root : String) : Option String :=
  if env.normalized (env.parent path) ≠ env.normalized (env.parent root) then none
  else
    let front := (env.name root ++ worktreeSuffix).toList
    if front.isPrefixOf (env.name path).toList then
      let suffix := (env.name path).toList.drop front.length
      if isTaskKey suffix then some (String.ofList suffix) else none
    else none

def isDirty (runner : GitRunner) (path : String) : Except Failure Bool := do
  let status ← runGit runner .status path
  return status.returncode ≠ 0 ∨ Text.strip status.stdout.toList ≠ []

def localBranches (runner : GitRunner) (root : String) : Except Failure (List String) := do
  let listed ← runGit runner .forEachHead root
  return if listed.returncode ≠ 0 then []
    else ((Text.splitlines listed.stdout.toList).map Text.strip |>.filter (· ≠ [])).map
      String.ofList

def count (runner : GitRunner) (args : List RevArg) (cwd : String) :
    Except Failure (Option Int) := do
  let counted ← runGit runner (.revListCount args) cwd
  return if counted.returncode ≠ 0 then none
    else (String.ofList (Text.strip counted.stdout.toList)).toInt?

/-- `branch or "HEAD"`. -/
def revOf (branch : Option String) : String := (branch.filter (· ≠ "")).getD "HEAD"

/-- The arguments that exclude the other branches, each behind a `--not` of its own. -/
def excluding (others : List String) : List RevArg := others.flatMap fun other => [.not, .rev other]

/-- `ahead` of `_is_unpushed`. -/
def ahead (runner : GitRunner) (root path : String) (branch : Option String)
    (upstream : GitResult) : Except Failure (Option Int) :=
  let name := Text.strip upstream.stdout.toList
  if upstream.returncode = 0 ∧ name ≠ [] then
    count runner [.range (String.ofList name) (revOf branch)] path
  else do
    let branches ← localBranches runner root
    let others := branches.filter fun other => some other ≠ branch
    count runner (.rev (revOf branch) :: .not :: .remotes :: excluding others) root

def isUnpushed (runner : GitRunner) (root path : String) (branch : Option String) :
    Except Failure Bool := do
  let upstream ← runGit runner (.upstreamOf (revOf branch)) path
  let ahead ← ahead runner root path branch upstream
  return match ahead with
    | none => true
    | some n => 0 < n

def excluded (path : String) (branch taskIdPrefix : Option String) (found : List Reason) :
    CleanupEntry :=
  { path, branch, taskIdPrefix, verdict := .excluded
    reasons := reasons.filter fun reason => reason ∈ found }

def classify (env : Env) (root : String) (entry : WorktreeEntry) (isMain locked : Bool)
    (active : List String) (runner : GitRunner) : Except Failure CleanupEntry :=
  if isMain then
    .ok (excluded entry.path entry.branch (managedTaskKey env entry.path root) [.mainWorktree])
  else
    match managedTaskKey env entry.path root with
    | none => .ok (excluded entry.path entry.branch none [.unmanaged])
    | some key => do
      let dirty ← isDirty runner entry.path
      let unpushed ← isUnpushed runner root entry.path entry.branch
      let found := (if key ∈ active then [Reason.activeSession] else []) ++
        (if locked then [.locked] else []) ++ (if dirty then [.dirty] else []) ++
        (if unpushed then [.unpushed] else [])
      return if found ≠ [] then excluded entry.path entry.branch (some key) found
        else
          { path := entry.path, branch := entry.branch, taskIdPrefix := some key
            verdict := .candidate, reasons := [] }

/-- `_digest`. -/
def digestOf (env : Env) (entries : List CleanupEntry) : String :=
  env.sha256 (String.join (entries.map fun entry =>
    env.normalized entry.path ++ "|" ++ entry.taskIdPrefix.getD "" ++ "|" ++
      entry.branch.getD "" ++ "|" ++ entry.verdict.text ++ "|" ++
      ",".intercalate (entry.reasons.map Reason.text) ++ "\n"))

/-- `task_id.hex[:8]`. -/
def taskKey (taskId : Uuid) : String :=
  String.ofList ((taskId.str.toList.filter (· ≠ '-')).take 8)

/-- `tuple(sorted({UUID(str(task_id)) ...}))`. -/
def sortedIds (taskIds : List Uuid) : List Uuid :=
  taskIds.dedup.mergeSort fun left right => left.str ≤ right.str

/-- The verdicts of the worktrees, in the order of the list. -/
def classifyAll (env : Env) (root : String) (active : List String) (runner : GitRunner)
    (porcelain : String) : Except Failure (List CleanupEntry) :=
  (parseWorktrees porcelain).zipIdx.mapM fun entry =>
    classify env root entry.1 (entry.2 = 0)
      (env.normalized entry.1.path ∈ lockedPaths env porcelain) active runner

def planCleanup (env : Env) (repoRoot : String) (activeTaskIds : List Uuid) (runner : GitRunner) :
    Except Failure CleanupPlan := do
  let root := env.resolve repoRoot
  let listed ← runGit runner .worktreeList root
  if listed.returncode ≠ 0 then
    let message := String.ofList (Text.strip listed.stderr.toList)
    .error (.retention "git_unavailable"
      (if message = "" then "git worktree list failed" else message))
  else do
    let taskIds := sortedIds activeTaskIds
    let found ← classifyAll env root (taskIds.map taskKey) runner listed.stdout
    let entries := found.mergeSort fun left right =>
      env.normalized left.path ≤ env.normalized right.path
    return { repoRoot := root, entries, activeTaskIds := taskIds, digest := digestOf env entries }

variable {κ : Type} [DecidableEq κ]

/-- `message or fallback`, of what git said. -/
def saidBy (result : GitResult) (fallback : String) : String :=
  let message := String.ofList (Text.strip result.stderr.toList)
  if message = "" then fallback else message

/-- One turn of the loop of `apply_cleanup`; git runs in `root`, the directory of `worktree`. -/
def removeEntry (worktree : Worktree κ) (repo : Repository κ) (done : CleanupResult)
    (entry : CleanupEntry) : Repository κ × CleanupResult :=
  let (repo, outcome) := repo.worktreeRemove entry.path
  if outcome.returncode ≠ 0 then
    (repo, { done with refused :=
      done.refused ++ [entry.path ++ ": " ++ saidBy outcome "git worktree remove failed"] })
  else
    let done := { done with removed := done.removed ++ [entry.path] }
    match entry.branch with
    | none => (repo, done)
    | some branch =>
      let (repo, pruned) := repo.branchDelete branch worktree
      if pruned.returncode ≠ 0 then
        (repo, { done with refused :=
          done.refused ++ [branch ++ ": " ++ saidBy pruned "git branch -d failed"] })
      else (repo, { done with deletedBranches := done.deletedBranches ++ [branch] })

/-- The loop of `apply_cleanup`. -/
def removeAll (worktree : Worktree κ) (repo : Repository κ) (done : CleanupResult) :
    List CleanupEntry → Repository κ × CleanupResult
  | [] => (repo, done)
  | entry :: rest =>
    let next := removeEntry worktree repo done entry
    removeAll worktree next.1 next.2 rest

/-- `apply_cleanup`: the repository behind the call, and what it returns. -/
def applyCleanup (env : Env) (repo : Repository κ) (repoRoot : String) (plan : CleanupPlan)
    (confirmDigest : String) : Repository κ × Except Failure CleanupResult :=
  if confirmDigest ≠ plan.digest then
    (repo, .error (.retention "digest_mismatch" "the confirmation does not match the plan"))
  else
    match planCleanup env repoRoot plan.activeTaskIds repo.run with
    | .error failure => (repo, .error failure)
    | .ok fresh =>
      if fresh.digest ≠ plan.digest then
        (repo, .error (.retention "plan_stale" "the worktrees changed since the plan was computed"))
      else
        match repo.worktreeAt fresh.repoRoot with
        | none => (repo, .error .osError)
        | some worktree =>
          let done := removeAll worktree repo
            { removed := [], deletedBranches := [], refused := [] } fresh.candidates
          (done.1, .ok done.2)

end StudioOS.Worktrees
