import Mathlib.Data.List.SplitBy
import StudioOS.Library.Files
import StudioOS.Library.Text

/-!
# Bootstrap — Model

Writing the local bundle of a project into its working tree, and taking the run back. `apply_files`
backs up and writes one file after the other and records a journal at the end; `rollback` checks
every entry of the journal against the tree and then undoes them in order.

The tree and the backups are functions of the path; `fault` says which write fails for a reason
outside the program.
-/

namespace StudioOS.Bootstrap

open TextFiles

abbrev Path := List Char

/-- `_ABSOLUTE_PATH_RE`. -/
def isAbsolute : Path → Bool
  | '/' :: _ => true
  | '\\' :: '\\' :: _ => true
  | '~' :: rest => rest ∈ [[], ['\n']] || rest.head? = some '/' || rest.head? = some '\\'
  | drive :: ':' :: sep :: _ => drive.isAlpha && (sep = '/' || sep = '\\')
  | _ => false

/-- The segments that `_reject_non_portable_path` and
`_rollback_backup_source` refuse. -/
def dotSegments : List Path := [[], ['.'], ['.', '.']]

/-- `RelativePath` of the contract. -/
structure RelativePath where
  value : Path
  bounds : 1 ≤ value.length ∧ value.length ≤ 500
  relative : isAbsolute value = false
  plain : '\x00' ∉ value ∧ '\\' ∉ value
  segments : ∀ segment ∈ value.splitOn '/', segment ∉ dotSegments

def agentsMdPath : Path := "AGENTS.md".toList

def claudeMdPath : Path := "CLAUDE.md".toList

def journalName : Path := "journal.json".toList

def agentsBeginMarker : Text := "<!-- BEGIN GENERATED RULES from .agents/rules -->".toList

def agentsEndMarker : Text := "<!-- END GENERATED RULES -->".toList

def claudeBeginMarker : Text := "<!-- BEGIN STUDIO-OS MANAGED -->".toList

def claudeEndMarker : Text := "<!-- END STUDIO-OS MANAGED -->".toList

/-- `PlannedFile`, as far as writing reads it. -/
structure PlannedFile where
  path : Path
  content : Text
  /-- A managed block, merged into the file. -/
  block : Bool

def PlannedFile.markers (item : PlannedFile) : Text × Text :=
  if item.path = claudeMdPath then (claudeBeginMarker, claudeEndMarker)
  else (agentsBeginMarker, agentsEndMarker)

inductive BootstrapFileState where
  | absent
  | obsolete
  | modified
  | incompatible
  | upToDate
deriving DecidableEq

structure BootstrapFileReport where
  path : RelativePath
  state : BootstrapFileState

inductive BootstrapConflictCode where
  | modifiedNeedsConfirmation
  | incompatibleTarget
deriving DecidableEq

structure BootstrapConflict where
  code : BootstrapConflictCode
  blocking : Bool

/-- `BootstrapDryRunReport`, as far as `apply_files` reads it. -/
structure BootstrapDryRunReport where
  files : List BootstrapFileReport
  conflicts : List BootstrapConflict
  needsConfirmation : Bool

abbrev Files := Path → Option Node

inductive Action where
  | created
  | replaced
  | other (name : String)
deriving DecidableEq

structure BackupEntry (δ : Type) where
  path : Path
  action : Action
  backup : Option Path
  afterLabel : δ

inductive Status where
  | applied
  | rolledBack

/-- The directory of one run: the backups, and its journal if there is one
that can be read. -/
structure Backup (δ : Type) where
  files : Files
  journal : Option (Status × List (BackupEntry δ))

inductive BootstrapError where
  /-- `sync blocked by conflicts`. -/
  | blocked (codes : List BootstrapConflictCode)
  /-- `policy 'ask': explicit confirmation required`. -/
  | confirmationRequired
  /-- The `KeyError` of `by_path`. -/
  | notPlanned (path : Path)
  /-- `refusing to write outside the repository`. -/
  | outside (path : Path)
  /-- The `UnicodeDecodeError` of `read_text`. -/
  | undecodable (path : Path)
  /-- The markers of the file cannot be merged with the block. -/
  | unmergeable (path : Path)
  /-- The file system refused. -/
  | failed (path : Path)
  | noJournal
  | alreadyRolledBack
  | unknownAction (path : Path) (action : String)
  | backupMissing (path : Path)
  | invalidBackupPath (path : Path)
  | nonFileTarget (path : Path)
  /-- `changed since the backup; refusing to roll back`. -/
  | changed (path : Path)

/-- What is outside this part of the program. -/
structure Env (δ : Type) where
  /-- `sha256` of a text. -/
  digest : Text → δ
  /-- `_confined_path` accepts the path: no link of it leaves the repository. -/
  confined : Path → Bool
  /-- `merge_agents_rules` with the canonical rules of the tree. -/
  mergeAgentsRules : Files → Text → Option Text

variable {δ : Type}

def Env.label (env : Env δ) (content : Text) : δ := env.digest (normalize content)

/-! ## Writing -/

/-- The text behind the first place of `old`. -/
def behind (old : Text) : Text → Text
  | [] => []
  | c :: rest => if old.isPrefixOf (c :: rest) then (c :: rest).drop old.length else behind old rest

/-- The text before the first place of `old`. -/
def ahead (old : Text) : Text → Text
  | [] => []
  | c :: rest => if old.isPrefixOf (c :: rest) then [] else c :: ahead old rest

/-- `text` with a newline at its end. -/
def ended (text : Text) : Text := if text.getLast? = some '\n' then text else text ++ ['\n']

/-- `_merge_block` between its markers. -/
def mergeMarked (existing block : Text) (markers : Text × Text) : Option Text :=
  let existing := normalize existing
  let expected := normalize block
  if Text.contains markers.1 existing ≠ Text.contains markers.2 existing then none
  else if Text.contains markers.1 existing then
    let tail := behind markers.2 existing
    let tail := if tail.head? = some '\n' then tail.tail else tail
    some (ended (ahead markers.1 existing ++ expected ++ tail))
  else
    let existing := if existing = [] then [] else ended existing
    let separator := if Text.strip existing = [] then [] else ['\n']
    some (existing ++ separator ++ expected)

def Env.mergeBlock (env : Env δ) (files : Files) (existing block : Text) (markers : Text × Text) :
    Option Text :=
  if markers.1 = agentsBeginMarker then env.mergeAgentsRules files existing
  else mergeMarked existing block markers

/-- The text of the file, empty where there is none. -/
def existingText (files : Files) (path : Path) : Except BootstrapError Text :=
  match files path with
  | some (.text chars) => .ok (universal chars)
  | some (.binary _) => .error (.undecodable path)
  | _ => .ok []

def Env.merged (env : Env δ) (files : Files) (item : PlannedFile) : Except BootstrapError Text :=
  match existingText files item.path with
  | .error err => .error err
  | .ok existing =>
    match env.mergeBlock files existing item.content item.markers with
    | none => .error (.unmergeable item.path)
    | some content => .ok content

/-- What `apply_files` writes for the planned file. -/
def Env.content (env : Env δ) (files : Files) (item : PlannedFile) : Except BootstrapError Text :=
  if item.block then env.merged files item else .ok item.content

/-- A run of `apply_files` under way. -/
structure Run (δ : Type) where
  files : Files
  kept : Files
  entries : List (BackupEntry δ)

/-- `_backup`, if there is something to keep; a directory is no file to copy. -/
def Run.backUp (run : Run δ) (path : Path) : Option (Run δ) :=
  match run.files path with
  | none => some run
  | some .directory => none
  | some node => some { run with kept := Function.update run.kept path (some node) }

/-- The file is written and goes into the journal. -/
def Run.write (env : Env δ) (run : Run δ) (path : Path) (content : Text) : Run δ :=
  { files := Function.update run.files path (some (.text content))
    kept := run.kept
    entries := run.entries ++
      [{ path
         action := if (run.files path).isSome then .replaced else .created
         backup := if (run.files path).isSome then some path else none
         afterLabel := env.label content }] }

/-- `by_path`: the last file planned for a path. -/
def byPath (planned : List PlannedFile) (path : Path) : Option PlannedFile :=
  planned.reverse.find? fun item => item.path = path

/-- One turn of the loop of `apply_files`. -/
def Env.writeFile (env : Env δ) (planned : List PlannedFile) (observed : BootstrapFileReport)
    (fails : Bool) (run : Run δ) : Run δ × Except BootstrapError Unit :=
  match byPath planned observed.path.value with
  | none => (run, .error (.notPlanned observed.path.value))
  | some item =>
    if env.confined item.path then
      match run.backUp item.path with
      | none => (run, .error (.failed item.path))
      | some run =>
        match env.content run.files item with
        | .error err => (run, .error err)
        | .ok content =>
          if fails then (run, .error (.failed item.path))
          else (run.write env item.path content, .ok ())
    else (run, .error (.outside item.path))

/-- The loop of `apply_files`; the write with the number `fault` fails. -/
def Env.applyLoop (env : Env δ) (planned : List PlannedFile) :
    List BootstrapFileReport → Option Nat → Run δ → Run δ × Except BootstrapError Unit
  | [], _, run => (run, .ok ())
  | observed :: rest, fault, run =>
    match env.writeFile planned observed (fault = some 0) run with
    | (run, .error err) => (run, .error err)
    | (run, .ok ()) => env.applyLoop planned rest (fault.map (· - 1)) run

def BootstrapDryRunReport.pending (report : BootstrapDryRunReport) : List BootstrapFileReport :=
  report.files.filter fun file => file.state ≠ .upToDate ∧ file.state ≠ .incompatible

def BootstrapDryRunReport.codes (report : BootstrapDryRunReport) : List BootstrapConflictCode :=
  [.incompatibleTarget, .modifiedNeedsConfirmation].filter fun code =>
    code ∈ report.conflicts.map (·.code)

/-- What `apply_files` refuses before it looks at the tree. -/
def BootstrapDryRunReport.gate (report : BootstrapDryRunReport) (confirm : Bool) :
    Except BootstrapError Unit :=
  if report.conflicts.any (·.blocking) then .error (.blocked report.codes)
  else if report.needsConfirmation && !confirm then .error .confirmationRequired
  else .ok ()

/-- The merges of `AGENTS.md` that `apply_files` tries before it writes. -/
def Env.preflight (env : Env δ) (files : Files) : List PlannedFile → Except BootstrapError Unit
  | [] => .ok ()
  | item :: rest =>
    if item.path = agentsMdPath then
      if env.confined item.path then
        match env.merged files item with
        | .error err => .error err
        | .ok _ => env.preflight files rest
      else .error (.outside item.path)
    else env.preflight files rest

/-- What a run leaves: the tree, its backup directory, what it wrote and
what it returns. -/
structure Applied (δ : Type) where
  files : Files
  backup : Backup δ
  written : List Path
  result : Except BootstrapError (List Path)

/-- A run that failed with what it has done so far. -/
def Run.stopped (run : Run δ) (err : BootstrapError) : Applied δ :=
  { files := run.files
    backup := { files := run.kept, journal := none }
    written := run.entries.map (·.path)
    result := .error err }

/-- A run with nothing to write. -/
def Run.idle (run : Run δ) : Applied δ :=
  { files := run.files
    backup := { files := run.kept, journal := none }
    written := []
    result := .ok [] }

def Run.finished (run : Run δ) : Applied δ :=
  { files := run.files
    backup := { files := run.kept, journal := some (.applied, run.entries) }
    written := run.entries.map (·.path)
    result := .ok (run.entries.map (·.path)) }

/-- A run before its first write. -/
def Run.start (files : Files) : Run δ := { files := files, kept := fun _ => none, entries := [] }

/-- `apply_files` with a fresh backup directory. The fault behind the last
file is the journal's. -/
def Env.applyFiles (env : Env δ) (files : Files) (planned : List PlannedFile)
    (report : BootstrapDryRunReport) (confirm : Bool) (fault : Option Nat) : Applied δ :=
  match report.gate confirm with
  | .error err => (Run.start files).stopped err
  | .ok () =>
    if report.pending = [] then (Run.start files).idle
    else
      match env.preflight files planned with
      | .error err => (Run.start files).stopped err
      | .ok () =>
        match env.applyLoop planned report.pending fault (.start files) with
        | (run, .error err) => run.stopped err
        | (run, .ok ()) =>
          if fault = some report.pending.length then run.stopped (.failed journalName)
          else run.finished

/-- `_rollback_backup_source`, of a path in the backup directory. -/
def validBackupPath (relative : Path) : Bool :=
  relative ≠ [] && !('\\' ∈ relative) && !(relative.head? = some '/') &&
    (relative.splitOn '/').all fun segment => !(segment ∈ dotSegments)

/-- The backup of an entry that replaced a file. -/
def Backup.source (backup : Backup δ) (entry : BackupEntry δ) : Except BootstrapError Node :=
  match entry.backup with
  | none => .error (.backupMissing entry.path)
  | some relative =>
    if validBackupPath relative then
      match backup.files relative with
      | none => .error (.invalidBackupPath entry.path)
      | some .directory => .error (.backupMissing entry.path)
      | some node => .ok node
    else .error (.invalidBackupPath entry.path)

/-- The target is absent, or reads back with the label of what was written. -/
def Env.checkTarget (env : Env δ) (files : Files) (force : Bool) (entry : BackupEntry δ)
    [DecidableEq δ] : Except BootstrapError Unit :=
  match files entry.path with
  | none => .ok ()
  | some .directory => .error (.nonFileTarget entry.path)
  | some node =>
    if force then .ok ()
    else
      match node.readText with
      | none => .error (.undecodable entry.path)
      | some current =>
        if env.label current = entry.afterLabel then .ok () else .error (.changed entry.path)

/-- `_check_rollback_entry`, behind `_safe_target`. -/
def Env.checkRollbackEntry [DecidableEq δ] (env : Env δ) (files : Files) (backup : Backup δ)
    (force : Bool) (entry : BackupEntry δ) : Except BootstrapError Unit :=
  if env.confined entry.path then
    match entry.action with
    | .other name => .error (.unknownAction entry.path name)
    | .created => env.checkTarget files force entry
    | .replaced =>
      match backup.source entry with
      | .error err => .error err
      | .ok _ => env.checkTarget files force entry
  else .error (.outside entry.path)

/-- The first loop of `rollback`. -/
def Env.checkAll [DecidableEq δ] (env : Env δ) (files : Files) (backup : Backup δ) (force : Bool) :
    List (BackupEntry δ) → Except BootstrapError Unit
  | [] => .ok ()
  | entry :: rest =>
    match env.checkRollbackEntry files backup force entry with
    | .error err => .error err
    | .ok () => env.checkAll files backup force rest

/-- One turn of the second loop: what is at the path afterwards, and whether
it counts as undone. -/
def Backup.undone (backup : Backup δ) (files : Files) (entry : BackupEntry δ) :
    Except BootstrapError (Option Node × Bool) :=
  if entry.action = .created then .ok (none, (files entry.path).isSome)
  else
    match backup.source entry with
    | .error err => .error err
    | .ok node => .ok (some node, true)

/-- A write of `rollback` that fails. -/
structure Fault where
  number : Nat
  /-- What it leaves at its path. -/
  left : Option Node
  /-- The journal is no longer readable, if its write was the one. -/
  torn : Bool

/-- The second loop of `rollback`. -/
def Backup.undoAll (backup : Backup δ) :
    List (BackupEntry δ) → Option Fault → Files → Files × Except BootstrapError (List Path)
  | [], _, files => (files, .ok [])
  | entry :: _, some ⟨0, left, _⟩, files =>
    (Function.update files entry.path left, .error (.failed entry.path))
  | entry :: rest, fault, files =>
    match backup.undone files entry with
    | .error err => (files, .error err)
    | .ok (node, counts) =>
      let later := backup.undoAll rest (fault.map fun f => { f with number := f.number - 1 })
        (Function.update files entry.path node)
      (later.1, later.2.map fun paths => if counts then entry.path :: paths else paths)

/-- What `rollback` leaves and returns. -/
structure Undoing (δ : Type) where
  files : Files
  backup : Backup δ
  result : Except BootstrapError (List Path)

/-- The journal is marked; a fault behind the last entry is the journal's. -/
def Backup.conclude (backup : Backup δ) (files : Files) (entries : List (BackupEntry δ))
    (paths : List Path) (fault : Option Fault) : Undoing δ :=
  match fault.filter fun f => f.number = entries.length with
  | none => ⟨files, { backup with journal := some (.rolledBack, entries) }, .ok paths⟩
  | some f =>
    ⟨files, { backup with journal := if f.torn then none else backup.journal },
      .error (.failed journalName)⟩

/-- `rollback` of the run with this backup directory. -/
def Env.rollback [DecidableEq δ] (env : Env δ) (files : Files) (backup : Backup δ) (force : Bool)
    (fault : Option Fault) : Undoing δ :=
  match backup.journal with
  | none => ⟨files, backup, .error .noJournal⟩
  | some (.rolledBack, _) => ⟨files, backup, .error .alreadyRolledBack⟩
  | some (.applied, entries) =>
    match env.checkAll files backup force entries with
    | .error err => ⟨files, backup, .error err⟩
    | .ok () =>
      match backup.undoAll entries fault files with
      | (files, .error err) => ⟨files, backup, .error err⟩
      | (files, .ok paths) => backup.conclude files entries paths fault

end StudioOS.Bootstrap
