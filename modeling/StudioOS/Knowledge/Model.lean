import Mathlib.Data.List.AList
import Mathlib.Data.List.Sort
import StudioOS.Base
import StudioOS.Knowledge.Links

/-!
# Knowledge — Model

`KnowledgeIndex` over a vault that changes on its own. A rebuild lists the vault, indexes one file
after the other with a commit for each, removes what is gone, resolves the links and stores the
fingerprint of the vault as it is then. An exception commits the current transaction, the end of the
process rolls it back.
-/

namespace StudioOS.Knowledge

/-- A Markdown file; `text` is what `read_text` returns, if it raises nothing. -/
structure File where
  text : Option Text
  sizeBytes : Nat
  mtimeNs : Int

/-- The files the globs select, by path. -/
abbrev Vault := AList fun _ : Path => File

def Vault.read (vault : Vault) (path : Path) : Option Text :=
  (vault.lookup path).bind File.text

def Vault.files (vault : Vault) : List VaultFile :=
  vault.entries.map fun entry =>
    { relativePath := entry.1, sizeBytes := entry.2.sizeBytes, mtimeNs := entry.2.mtimeNs }

def Vault.iterMarkdown (vault : Vault) : List VaultFile :=
  vault.files.insertionSort fun a b => a.relativePath ≤ b.relativePath

/-- A file is written, or removed. -/
def Vault.edit (vault : Vault) (path : Path) : Option File → Vault
  | some file => vault.insert path file
  | none => vault.erase path

/-- `documents`, with the rows of the other tables; `relative_path` is unique. -/
structure Documents where
  rows : List DocumentRow
  key : (rows.map DocumentRow.relativePath).Nodup

def Documents.empty : Documents := { rows := [], key := List.nodup_nil }

def Documents.modify (docs : Documents) (path : Path) (write : DocumentRow → DocumentRow) :
    Documents where
  rows := docs.rows.map fun row =>
    if row.relativePath = path then { write row with relativePath := row.relativePath } else row
  key := by
    have h : ∀ row : DocumentRow,
        (if row.relativePath = path then { write row with relativePath := row.relativePath }
          else row).relativePath = row.relativePath := by
      intro row
      split <;> rfl
    simpa [Function.comp_def, h] using docs.key

/-- `DELETE FROM documents`. -/
def Documents.delete (docs : Documents) (path : Path) : Documents where
  rows := docs.rows.filter fun row => row.relativePath ≠ path
  key := docs.key.sublist (List.filter_sublist.map _)

/-- `INSERT INTO documents`. -/
def Documents.insert (docs : Documents) (row : DocumentRow) : Documents :=
  if h : row.relativePath ∈ docs.rows.map DocumentRow.relativePath then docs
  else
    { rows := docs.rows ++ [row]
      key := by
        rw [List.map_append, List.map_cons, List.map_nil, List.nodup_append_comm]
        exact List.nodup_cons.mpr ⟨h, docs.key⟩ }

def Documents.paths (docs : Documents) : List Path := docs.rows.map DocumentRow.relativePath

inductive Statement where
  | deleteHeadings (path : Path)
  | deleteLinks (path : Path)
  | deleteTags (path : Path)
  | deleteDocument (path : Path)
  | insertDocument (row : DocumentRow)
  | insertHeading (path : Path) (heading : Heading)
  | insertLink (path : Path) (link : LinkRow)
  | insertTag (path : Path) (tag : TagRow)

def Statement.execute (docs : Documents) : Statement → Documents
  | .deleteHeadings path => docs.modify path fun row => { row with headings := [] }
  | .deleteLinks path => docs.modify path fun row => { row with links := [] }
  | .deleteTags path => docs.modify path fun row => { row with tags := [] }
  | .deleteDocument path => docs.delete path
  | .insertDocument row => docs.insert row
  | .insertHeading path heading =>
    docs.modify path fun row => { row with headings := row.headings ++ [heading] }
  | .insertLink path link => docs.modify path fun row => { row with links := row.links ++ [link] }
  | .insertTag path tag => docs.modify path fun row => { row with tags := row.tags ++ [tag] }

def executeAll (docs : Documents) (statements : List Statement) : Documents :=
  statements.foldl Statement.execute docs

def deleteDocument (docs : Documents) (path : Path) : List Statement :=
  if path ∈ docs.paths then
    [.deleteHeadings path, .deleteLinks path, .deleteTags path, .deleteDocument path]
  else []

/-- The row of a file, with its headings, its links before they are resolved
and its tags. -/
def Env.row (env : Env) (item : VaultFile) (text : Text) (parsed : ParsedMarkdown) :
    DocumentRow where
  relativePath := item.relativePath
  title := parsed.title
  contentHash := env.contentHash text
  sizeBytes := item.sizeBytes
  mtimeNs := item.mtimeNs
  body := parsed.body
  headings := parsed.headings
  links := parsed.links.map fun link => { toRawLink := link, resolved := none }
  tags := parsed.tags.map fun tag => { tag := tag, slug := env.tagSlug tag }

/-- The `INSERT`s of a row. -/
def insertRow (row : DocumentRow) : List Statement :=
  .insertDocument { row with headings := [], links := [], tags := [] } ::
    (row.headings.map (Statement.insertHeading row.relativePath) ++
      (row.links.map (Statement.insertLink row.relativePath) ++
        row.tags.map (Statement.insertTag row.relativePath)))

/-- What a document is made of, if the file has a URI and is Markdown. -/
def Env.parsed (env : Env) (path : Path) (text : Text) : Option ParsedMarkdown :=
  if (env.buildLocalUri path none).isSome then env.parse path text else none

/-- The document is there, with the hash of the text and the time of the file. -/
def Env.upToDate (env : Env) (docs : Documents) (item : VaultFile) (text : Text) : Bool :=
  docs.rows.any fun row =>
    row.relativePath = item.relativePath && row.contentHash = env.contentHash text &&
      row.mtimeNs = item.mtimeNs

/-- `_index_file`, for what `read_text` returns. -/
def Env.indexFile (env : Env) (docs : Documents) (item : VaultFile) (full : Bool)
    (text : Option Text) : List Statement :=
  match text with
  | none => deleteDocument docs item.relativePath
  | some text =>
    if !full && env.upToDate docs item text then []
    else
      deleteDocument docs item.relativePath ++
        match env.parsed item.relativePath text with
        | none => []
        | some parsed => insertRow (env.row item text parsed)

/-! ## The index -/

/-- The entries of `meta`. -/
structure Meta where
  indexing : Bool
  progressPercent : Option Nat
  builtAt : Option Timestamp
  sourceFingerprint : Option Nat

/-- The SQLite file. -/
structure Index where
  info : Meta
  docs : Documents

inductive IndexState where
  | absent
  | indexing
  | ready
  | stale

/-- The state `snapshot` reports. -/
def Env.snapshot (env : Env) (vault : Vault) : Option Index → IndexState
  | none => .absent
  | some index =>
    if index.info.indexing then .indexing
    else if index.info.builtAt = none then .absent
    else if index.info.sourceFingerprint = some (env.fingerprint vault.iterMarkdown) then .ready
    else .stale

/-- A rebuild that is under way: what its listing has, in two parts. -/
structure Job where
  full : Bool
  stamp : Timestamp
  known : List Path
  done : List VaultFile
  todo : List VaultFile

def Job.files (job : Job) : List VaultFile := job.done ++ job.todo

def Job.listed (job : Job) : List Path := job.files.map VaultFile.relativePath

/-- `known - present`, sorted. -/
def Job.stale (job : Job) : List Path :=
  (job.known.filter fun path => path ∉ job.listed).insertionSort (· ≤ ·)

def deleteStale (docs : Documents) (paths : List Path) : Documents :=
  paths.foldl (fun docs path => executeAll docs (deleteDocument docs path)) docs

/-- The links of the table, with the first `n` resolved. -/
def Env.resolveFirst (env : Env) (all : List DocumentRow) : Nat → List DocumentRow →
    List DocumentRow
  | _, [] => []
  | n, row :: rows =>
    { row with
      links := (row.links.take n).map (fun link => (env.resolveLink all row link).getD link) ++
        row.links.drop n } :: env.resolveFirst all (n - row.links.length) rows

structure State where
  vault : Vault
  index : Option Index
  job : Option Job

inductive Act where
  | edit (path : Path) (file : Option File)
  | start (full : Bool) (now : Timestamp)
  /-- A full rebuild that ends after its `drop`. -/
  | drop
  /-- The next file is indexed. -/
  | file
  /-- Everything behind the files, and the end. -/
  | finish
  /-- An exception after `k` statements of the next file. -/
  | failFile (k : Nat)
  /-- An exception after the documents of `k` paths, `m` statements of the
  next one and, with all of them gone, `n` links. -/
  | failEnd (k m n : Nat)
  /-- The process ends. -/
  | crash

section Step

variable (env : Env)

/-- `list(iter_markdown(...))[: max_documents]`. -/
def Env.listing (env : Env) (vault : Vault) : List VaultFile :=
  vault.iterMarkdown.take env.maxDocuments

/-- The start of a rebuild, up to its first commit. -/
def State.start (s : State) (full : Bool) (now : Timestamp) : State :=
  let docs :=
    if full then Documents.empty
    else
      match s.index with
      | none => Documents.empty
      | some index => index.docs
  { s with
    index := some
      { info :=
          { indexing := true, progressPercent := some 0, builtAt := none, sourceFingerprint := none }
        docs := docs }
    job := some
      { full := full, stamp := now, known := docs.paths, done := [], todo := env.listing s.vault } }

/-- `int(position * 100 / total)`, behind the next file. -/
def Job.percent (job : Job) : Nat := (job.done.length + 1) * 100 / max job.files.length 1

/-- `_index_file` and the commit behind it. -/
def State.indexFile (s : State) (job : Job) (index : Index) (item : VaultFile)
    (rest : List VaultFile) : State :=
  { s with
    index := some
      { info := { index.info with progressPercent := some job.percent }
        docs := executeAll index.docs
          (env.indexFile index.docs item job.full (s.vault.read item.relativePath)) }
    job := some { job with done := job.done ++ [item], todo := rest } }

/-- What an exception leaves. -/
def State.fail (s : State) (index : Index) (docs : Documents) : State :=
  { s with
    index := some
      { info := { index.info with indexing := false, progressPercent := none }, docs := docs }
    job := none }

/-- Rows that differ in what their links lead to at most. -/
def Documents.withRows (docs : Documents) (rows : List DocumentRow) : Documents :=
  if h : rows.map DocumentRow.relativePath = docs.paths then
    { rows := rows, key := by rw [h]; exact docs.key }
  else docs

/-- The last commit. -/
def State.finish (s : State) (job : Job) (docs : Documents) (rows : List DocumentRow) : State :=
  { s with
    index := some
      { info :=
          { indexing := false
            progressPercent := none
            builtAt := some job.stamp
            sourceFingerprint := some (env.fingerprint s.vault.iterMarkdown) }
        docs := docs.withRows rows }
    job := none }

def step (s : State) : Act → Option State
  | .edit path file => some { s with vault := s.vault.edit path file }
  | .start full now => if s.job.isNone then some (s.start env full now) else none
  | .drop => if s.job.isNone then some { s with index := none } else none
  | .file =>
    s.job.bind fun job => s.index.bind fun index =>
      match job.todo with
      | [] => none
      | item :: rest => some (s.indexFile env job index item rest)
  | .finish =>
    s.job.bind fun job => s.index.bind fun index =>
      match job.todo with
      | [] =>
        let docs := deleteStale index.docs job.stale
        (env.resolveLinks docs.rows).map (s.finish env job docs)
      | _ :: _ => none
  | .failFile k =>
    s.job.bind fun job => s.index.bind fun index =>
      match job.todo with
      | [] => none
      | item :: _ =>
        let statements :=
          env.indexFile index.docs item job.full (s.vault.read item.relativePath)
        some (s.fail index (executeAll index.docs (statements.take k)))
  | .failEnd k m n =>
    s.job.bind fun job => s.index.bind fun index =>
      match job.todo with
      | [] =>
        let docs := deleteStale index.docs (job.stale.take k)
        match job.stale[k]? with
        | some path =>
          some (s.fail index (executeAll docs ((deleteDocument docs path).take m)))
        | none =>
          some (s.fail index (docs.withRows (env.resolveFirst docs.rows n docs.rows)))
      | _ :: _ => none
  | .crash => s.job.map fun _ => { s with job := none }

end Step

/-- A vault, and no index. -/
def State.initial (vault : Vault) : State := { vault := vault, index := none, job := none }

end StudioOS.Knowledge
