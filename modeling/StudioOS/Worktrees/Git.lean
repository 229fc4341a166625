import StudioOS.Library.Ancestry
import StudioOS.Library.Text

/-!
# Git — a repository and the commands that are run in it

What the retention of worktrees relies on, as git documents it: how a name
becomes a revision (`gitrevisions`), what `rev-list --count` counts when
`--not` toggles, what an upstream is, what `worktree list --porcelain` prints,
and what `worktree remove` and `branch -d` refuse without a force option.
-/

namespace StudioOS.Worktrees

/-- What `HEAD` of a worktree is: a branch, by its name below `refs/heads/`, or a commit. -/
inductive Head (κ : Type) where
  | branch (name : String)
  | detached (commit : κ)

/-- What porcelain prints of a name in a line of its own, it prints readably. -/
def IsName (name : String) : Prop := name ≠ "" ∧ ∀ c ∈ name.toList, Text.isSpace c = false

def IsPath (path : String) : Prop := Text.Unbroken path.toList ∧ Text.Trimmed path.toList

instance (name : String) : Decidable (IsName name) :=
  decidable_of_iff (name ≠ "" ∧ (name.toList.all fun c => !Text.isSpace c) = true)
    (by simp [IsName])

instance (path : String) : Decidable (IsPath path) :=
  inferInstanceAs (Decidable (Text.Unbroken path.toList ∧ Text.Trimmed path.toList))

structure Worktree (κ : Type) where
  path : String
  head : Head κ
  /-- The reason of a lock, which may be empty. -/
  locked : Option String
  /-- What `git status --porcelain` prints, nothing for a clean worktree. -/
  status : String
  /-- The directory is there. -/
  present : Bool
  /-- `git worktree remove` fails for a reason of its own, a file in use say. -/
  busy : Bool
  isPath : IsPath path
  isName : ∀ name, head = .branch name → IsName name
  unbroken : ∀ reason, locked = some reason → Text.Unbroken reason.toList

/-- A way to complete the name of a reference. -/
structure Rule where
  front : String
  back : String
deriving DecidableEq

def Rule.complete (rule : Rule) (name : String) : String := rule.front ++ name ++ rule.back

/-- The name that the rule completes to this reference. -/
def Rule.shorten (rule : Rule) (ref : String) : Option String :=
  let rest := ref.toList.drop rule.front.length
  if rule.front.toList.isPrefixOf ref.toList ∧ rule.back.toList.isSuffixOf rest then
    some (String.ofList (rest.take (rest.length - rule.back.length)))
  else none

/-- The rules of `gitrevisions`, the first that leads to a reference wins. -/
def rules : List Rule :=
  [⟨"", ""⟩, ⟨"refs/", ""⟩, ⟨"refs/tags/", ""⟩, ⟨"refs/heads/", ""⟩, ⟨"refs/remotes/", ""⟩,
    ⟨"refs/remotes/", "/HEAD"⟩]

/-- A reference, by its full name. -/
structure Ref (κ : Type) where
  name : String
  commit : κ

/-- A repository. The references are in the order in which git lists them. -/
structure Repository (κ : Type) where
  graph : Ancestry κ
  hash : κ → String
  refs : List (Ref κ)
  /-- The upstream that is configured for a branch, a full name. -/
  upstream : String → Option String
  main : Worktree κ
  linked : List (Worktree κ)
  distinct : (refs.map Ref.name).Nodup
  hash_isName : ∀ commit, IsName (hash commit)
  ref_mem : ∀ ref ∈ refs, ref.commit ∈ graph.nodes
  ref_isName : ∀ ref ∈ refs, IsName ref.name ∧ ref.name ≠ "HEAD"
  ref_ne : ∀ ref ∈ refs, ∀ rule ∈ rules, rule.complete "" ≠ ref.name
  head_mem : ∀ worktree ∈ main :: linked, ∀ commit, worktree.head = .detached commit →
    commit ∈ graph.nodes
  paths : ((main :: linked).map Worktree.path).Nodup

/-- `refs/heads/<name>`. -/
def headRef (name : String) : String := "refs/heads/" ++ name

variable {κ : Type}

def Worktree.branch (worktree : Worktree κ) : Option String :=
  match worktree.head with
  | .branch name => some name
  | .detached _ => none

namespace Repository

variable (repo : Repository κ)

def worktrees : List (Worktree κ) := repo.main :: repo.linked

/-- The commit of a reference. -/
def lookup (ref : String) : Option κ :=
  (repo.refs.find? fun entry => entry.name = ref).map Ref.commit

/-- The commit `HEAD` of a worktree is, none on a branch without one. -/
def headCommit (worktree : Worktree κ) : Option κ :=
  match worktree.head with
  | .branch name => repo.lookup (headRef name)
  | .detached commit => some commit

/-- The worktree a command is run in. -/
def worktreeAt (cwd : String) : Option (Worktree κ) :=
  repo.worktrees.find? fun worktree => worktree.path = cwd ∧ worktree.present

/-- The commit a name stands for. -/
def resolve (worktree : Worktree κ) (name : String) : Option κ :=
  if name = "HEAD" then repo.headCommit worktree
  else rules.findSome? fun rule => repo.lookup (rule.complete name)

/-- Whether a rule leads somewhere. -/
def leads (name : String) (rule : Rule) : Bool :=
  rule.complete name = "HEAD" ∨ (repo.lookup (rule.complete name)).isSome

/-- `%(refname:short)`, and `rev-parse --abbrev-ref`: the shortest name that no other rule leads
somewhere. -/
def shortName (ref : String) : String :=
  ((rules.drop 1).reverse.findSome? fun rule =>
    (rule.shorten ref).filter fun name =>
      rules.all fun other => other = rule ∨ ¬ repo.leads name other).getD ref

/-- The references below a prefix. -/
def below (front : String) : List (Ref κ) :=
  repo.refs.filter fun ref => front.toList.isPrefixOf ref.name.toList

def heads : List (Ref κ) := repo.below "refs/heads/"

def remotes : List (Ref κ) := repo.below "refs/remotes/"

/-- The upstream of a branch, when the reference is there. -/
def upstreamOf (name : String) : Option String :=
  (repo.upstream name).filter fun ref => (repo.lookup ref).isSome

end Repository

/-! ## Commands -/

/-- An argument of `rev-list --count`. -/
inductive RevArg where
  | rev (name : String)
  | range (excluded included : String)
  | not
  | remotes

inductive Command where
  /-- `worktree list --porcelain`. -/
  | worktreeList
  /-- `status --porcelain`. -/
  | status
  /-- `for-each-ref --format=%(refname:short) refs/heads/`. -/
  | forEachHead
  /-- `rev-list --count <args>`. -/
  | revListCount (args : List RevArg)
  /-- `rev-parse --abbrev-ref --symbolic-full-name <rev>@{upstream}`. -/
  | upstreamOf (rev : String)

structure GitResult where
  returncode : Nat
  stdout : String
  stderr : String

def GitResult.ok (stdout : String) : GitResult := { returncode := 0, stdout, stderr := "" }

def GitResult.fatal (stderr : String) : GitResult := { returncode := 128, stdout := "", stderr }

/-- The two ends of ranges. -/
structure Ends (κ : Type) where
  included : List κ
  excluded : List κ

def Ends.none : Ends κ := { included := [], excluded := [] }

/-- More commits, on the side that `--not` leaves them. -/
def Ends.add (negated : Bool) (commits : List κ) (ends : Ends κ) : Ends κ :=
  if negated then { ends with excluded := commits ++ ends.excluded }
  else { ends with included := commits ++ ends.included }

namespace Repository

variable (repo : Repository κ)

/-- The arguments of `rev-list`: `--not` turns around what stands behind it, up to the next. -/
def ends (worktree : Worktree κ) : Bool → List RevArg → Option (Ends κ)
  | _, [] => some Ends.none
  | negated, .not :: rest => ends worktree (!negated) rest
  | negated, .remotes :: rest =>
    (ends worktree negated rest).map fun later =>
      later.add negated (repo.remotes.map Ref.commit)
  | negated, .rev name :: rest =>
    match repo.resolve worktree name with
    | none => none
    | some commit => (ends worktree negated rest).map fun later => later.add negated [commit]
  | negated, .range excluded included :: rest =>
    match repo.resolve worktree excluded, repo.resolve worktree included with
    | some base, some tip =>
      (ends worktree negated rest).map fun later =>
        (later.add negated [tip]).add (!negated) [base]
    | _, _ => none

/-- The lines of a worktree in `worktree list --porcelain`. -/
def block (worktree : Worktree κ) : List (List Char) :=
  ["worktree ".toList ++ worktree.path.toList,
    "HEAD ".toList ++ ((repo.headCommit worktree).elim "0" repo.hash).toList,
    match worktree.head with
    | .branch name => "branch refs/heads/".toList ++ name.toList
    | .detached _ => "detached".toList] ++
  (match worktree.locked with
    | none => []
    | some reason =>
      if reason = "" then ["locked".toList] else ["locked ".toList ++ reason.toList]) ++
  [[]]

/-- Lines, each with its newline. -/
def printed (lines : List (List Char)) : String :=
  String.ofList (lines.flatMap fun line => line ++ ['\n'])

def porcelain : String := printed (repo.worktrees.flatMap repo.block)

/-- A command that reads, in the directory of a worktree. `none` is the exception of
`subprocess.run` for a directory that is not there. -/
def run [DecidableEq κ] (command : Command) (cwd : String) : Option GitResult :=
  match repo.worktreeAt cwd with
  | none => none
  | some worktree =>
    match command with
    | .worktreeList => some (.ok repo.porcelain)
    | .status => some (.ok worktree.status)
    | .forEachHead =>
      some (.ok (printed (repo.heads.map fun ref => (repo.shortName ref.name).toList)))
    | .revListCount args =>
      match repo.ends worktree false args with
      | none => some (.fatal "fatal: ambiguous argument")
      | some found =>
        some (.ok (toString (repo.graph.countRange found.included found.excluded) ++ "\n"))
    | .upstreamOf rev =>
      match (if rev = "HEAD" then worktree.branch else some rev).bind repo.upstreamOf with
      | none => some (.fatal "fatal: no upstream configured")
      | some ref => some (.ok (repo.shortName ref ++ "\n"))

def without (path : String) : Repository κ :=
  { repo with
    linked := repo.linked.filter fun worktree => worktree.path ≠ path
    head_mem := by
      intro worktree hworktree
      refine repo.head_mem worktree ?_
      rcases List.mem_cons.mp hworktree with rfl | hlinked
      · exact List.mem_cons_self
      · exact .tail _ (List.mem_filter.mp hlinked).1
    paths := repo.paths.sublist (List.Sublist.map _ ((List.filter_sublist).cons_cons _)) }

/-- `worktree remove <path>`, without `--force`. -/
def worktreeRemove (path : String) : Repository κ × GitResult :=
  match repo.linked.find? fun worktree => worktree.path = path with
  | none => (repo, .fatal "fatal: not a linked working tree")
  | some worktree =>
    if worktree.locked.isSome then (repo, .fatal "fatal: cannot remove a locked working tree")
    else if Text.strip worktree.status.toList ≠ [] then
      (repo, .fatal "fatal: contains modified or untracked files")
    else if worktree.busy then (repo, .fatal "error: failed to delete")
    else (repo.without path, .ok "")

def withoutRef (ref : String) : Repository κ :=
  { repo with
    refs := repo.refs.filter fun entry => entry.name ≠ ref
    distinct := repo.distinct.sublist (List.Sublist.map _ List.filter_sublist)
    ref_mem := fun entry hentry => repo.ref_mem entry (List.mem_filter.mp hentry).1
    ref_isName := fun entry hentry => repo.ref_isName entry (List.mem_filter.mp hentry).1
    ref_ne := fun entry hentry => repo.ref_ne entry (List.mem_filter.mp hentry).1 }

/-- `branch -d <name>`: a branch that is checked out nowhere and merged into its upstream, into
`HEAD` when it has none. -/
def branchDelete [DecidableEq κ] (name : String) (worktree : Worktree κ) :
    Repository κ × GitResult :=
  match repo.lookup (headRef name) with
  | none => (repo, .fatal "error: branch not found")
  | some tip =>
    if repo.worktrees.any fun other => other.branch = some name then
      (repo, .fatal "error: cannot delete a branch that is checked out")
    else
      match ((repo.upstreamOf name).bind repo.lookup).or (repo.headCommit worktree) with
      | none => (repo, .fatal "fatal: could not look up HEAD")
      | some base =>
        if repo.graph.reaches base tip then (repo.withoutRef (headRef name), .ok "")
        else (repo, .fatal "error: the branch is not fully merged")

end Repository

end StudioOS.Worktrees
