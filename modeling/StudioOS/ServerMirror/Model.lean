import StudioOS.Base
import StudioOS.Library.Keyed
import StudioOS.Library.Text

/-!
# Server mirror — Model

`ServerVaultMirror`: a table of the notes of the server and three entries about the last
synchronisation. `sync` reads the tree page by page, fetches the notes that changed, and stores the
result in one transaction. What the server answers is two lists; one that ends leaves the
synchronisation waiting.
-/

namespace StudioOS.ServerMirror

abbrev Text := List Char

/-- A `UUID`, as `str` writes it. -/
abbrev Uuid := Text

inductive VaultScope where
  | studio
  | project

inductive VaultNoteStatus where
  | draft
  | proposed
  | validated
  | superseded
  | archived
deriving DecidableEq

/-- `VaultNoteSummary`; `rest` stands for the fields that a synchronisation
only copies. -/
structure VaultNoteSummary where
  id : Uuid
  scope : VaultScope
  projectId : Option Uuid
  slug : Text
  status : VaultNoteStatus
  contentHash : String
  version : Int
  rest : String
  consistent : scope = .project ↔ projectId.isSome = true

structure VaultNote extends VaultNoteSummary where
  body : String

/-- `text.replace("\\", "/")`. -/
def slashed (text : Text) : Text := text.map fun c => if c = '\\' then '/' else c

/-- `text.rstrip("/")`. -/
def rstripSlash (text : Text) : Text := (text.reverse.dropWhile (· = '/')).reverse

def lstripSlash (text : Text) : Text := text.dropWhile (· = '/')

/-- `_normalize`. -/
def normalizePrefix (raw : Text) : Text :=
  let cleaned := rstripSlash (lstripSlash (slashed (Text.strip raw)))
  if cleaned = [] then [] else cleaned ++ ['/']

/-- `ScopePolicy`, with the prefixes as they were given. -/
structure ScopePolicy where
  prefixes : List Text

def ScopePolicy.allowedPrefixes (policy : ScopePolicy) : List Text :=
  policy.prefixes.map normalizePrefix

def ScopePolicy.isExposed (policy : ScopePolicy) (relativePosix : Text) : Bool :=
  let rel := lstripSlash (slashed (Text.strip relativePosix))
  (policy.allowedPrefixes.filter (· ≠ [])).any fun allowed =>
    rel = rstripSlash allowed || allowed.isPrefixOf rel

def mirrorRelativePaths (scope : VaultScope) (projectId : Option Uuid) (slug : Text) : List Text :=
  match scope, projectId with
  | .studio, _ => ["global/".toList ++ slug, "conventions/".toList ++ slug]
  | .project, none => []
  | .project, some id => ["projects/".toList ++ id ++ '/' :: slug]

def isNoteInScope (policy : ScopePolicy) (summary : VaultNoteSummary) : Bool :=
  (mirrorRelativePaths summary.scope summary.projectId summary.slug).any policy.isExposed

def scopeIsClosed (policy : ScopePolicy) : Bool := policy.allowedPrefixes.all (· = [])

/-- The table `notes`; `id` is its primary key. -/
structure NoteTable where
  rows : List VaultNote
  key : (rows.map fun row => row.id).Nodup

def NoteTable.row (table : NoteTable) (id : Uuid) : Option VaultNote :=
  table.rows.find? fun row => row.id = id

def NoteTable.ids (table : NoteTable) : List Uuid := table.rows.map fun row => row.id

def NoteTable.filter (table : NoteTable) (keep : VaultNote → Bool) : NoteTable where
  rows := table.rows.filter keep
  key := table.key.sublist (List.filter_sublist.map _)

/-- `_upsert_note`. -/
def NoteTable.upsert (table : NoteTable) (note : VaultNote) : NoteTable where
  rows := Keyed.upsert (fun row => row.id) note.id
    (fun row => if row.id = note.id then note else row) note table.rows
  key := Keyed.nodup_upsert
    (fun row => by
      by_cases h : row.id = note.id
      · rw [if_pos h, h]
      · rw [if_neg h])
    rfl table.key

/-- `DELETE FROM notes WHERE id = ?`. -/
def NoteTable.delete (table : NoteTable) (id : Uuid) : NoteTable :=
  table.filter fun row => row.id ≠ id

/-- The tables `notes` and `meta`. A mirror without a file is one without
rows and entries. -/
structure Mirror where
  notes : NoteTable
  lastSyncedAt : Option Timestamp
  lastAttemptAt : Option Timestamp
  lastSyncError : Option String

def Mirror.recordSuccess (mirror : Mirror) (now : Timestamp) : Mirror :=
  { mirror with lastSyncedAt := some now, lastAttemptAt := some now, lastSyncError := some "" }

def Mirror.recordFailure (mirror : Mirror) (error : String) (now : Timestamp) : Mirror :=
  { mirror with
    lastAttemptAt := some now
    lastSyncError := some (String.ofList (error.toList.take 500)) }

/-- `purge_out_of_scope`: the mirror and the rows it removed. -/
def Mirror.purgeOutOfScope (mirror : Mirror) (policy : ScopePolicy) : Mirror × Nat :=
  let kept := mirror.notes.filter fun note => isNoteInScope policy note.toVaultNoteSummary
  ({ mirror with notes := kept }, mirror.notes.rows.length - kept.rows.length)

inductive FreshnessReason where
  | neverSynced
  | lastSyncFailed
  | olderThanThreshold
  | fresh
deriving DecidableEq

structure MirrorFreshness where
  lastSyncedAt : Option Timestamp
  lastAttemptAt : Option Timestamp
  lastError : Option String
  stale : Bool
  reason : FreshnessReason

def Mirror.freshness (mirror : Mirror) (staleAfter : Nat) (moment : Timestamp) : MirrorFreshness :=
  let lastError := mirror.lastSyncError.filter (· ≠ "")
  if lastError.isSome = true then
    ⟨mirror.lastSyncedAt, mirror.lastAttemptAt, lastError, true, .lastSyncFailed⟩
  else
    match mirror.lastSyncedAt with
    | none => ⟨none, mirror.lastAttemptAt, none, true, .neverSynced⟩
    | some synced =>
      if staleAfter + synced < moment then
        ⟨some synced, mirror.lastAttemptAt, none, true, .olderThanThreshold⟩
      else ⟨some synced, mirror.lastAttemptAt, none, false, .fresh⟩

/-- How the server answers a request for a page of the tree; a failure is any
exception of the request or of the reading of its answer. -/
inductive TreeAnswer where
  | page (items : List VaultNoteSummary) (nextCursor : Option String)
  | failure (error : String)

inductive NoteAnswer where
  | note (note : VaultNote)
  /-- 403 or 404. -/
  | unreadable
  | failure (error : String)

inductive Outcome (α : Type) where
  | returned (result : α)
  | raised (error : String)
  | waiting

/-- `_fetch_tree`, behind the items it has. -/
def fetchTree (items : List VaultNoteSummary) : List TreeAnswer → Outcome (List VaultNoteSummary)
  | [] => .waiting
  | .failure error :: _ => .raised error
  | .page more nextCursor :: rest =>
    if nextCursor = none then .returned (items ++ more) else fetchTree (items ++ more) rest

/-- `_fetch_notes`, behind the notes it has. -/
def fetchNotes (fetched : List VaultNote) :
    List VaultNoteSummary → List NoteAnswer → Outcome (List VaultNote)
  | [], _ => .returned fetched
  | _ :: _, [] => .waiting
  | _ :: _, .failure error :: _ => .raised error
  | _ :: wanted, .unreadable :: rest => fetchNotes fetched wanted rest
  | _ :: wanted, .note note :: rest => fetchNotes (fetched ++ [note]) wanted rest

structure MirrorSyncReport where
  added : Nat
  updated : Nat
  removed : Nat
  unchanged : Int
  fetched : Nat
  total : Nat
  lastSyncedAt : Timestamp

/-- The stored note has the listed version, hash and status. -/
def sameVersion (known : VaultNote) (item : VaultNoteSummary) : Bool :=
  known.version = item.version && known.contentHash = item.contentHash &&
    known.status = item.status

def Mirror.toFetch (mirror : Mirror) (visible : List VaultNoteSummary) : List VaultNoteSummary :=
  visible.filter fun item => !(mirror.notes.row item.id).any fun known => sameVersion known item

/-- The column `version` holds 64 bits. -/
def fitsInteger (version : Int) : Bool := -2 ^ 63 ≤ version && version < 2 ^ 63

def overflowError : String := "Python int too large to convert to SQLite INTEGER"

/-- The notes after the transaction of `_store_sync_result`. -/
def Mirror.storedNotes (mirror : Mirror) (visible : List VaultNoteSummary)
    (fetched : List VaultNote) : NoteTable :=
  let requested := (mirror.toFetch visible).map (·.id)
  let missing := requested.filter fun id => id ∉ fetched.map (·.id)
  let toDelete := mirror.notes.ids.filter fun id => id ∉ visible.map (·.id)
  fetched.foldl .upsert (missing.foldl .delete (toDelete.foldl .delete mirror.notes))

def Mirror.storeSyncResult (mirror : Mirror) (visible : List VaultNoteSummary)
    (fetched : List VaultNote) (now : Timestamp) : Mirror × Outcome MirrorSyncReport :=
  if (fetched.all fun note => fitsInteger note.version) = false then
    (mirror, .raised overflowError)
  else
    let localIds := mirror.notes.ids
    let visibleIds := (visible.map (·.id)).dedup
    let fetchedIds := (fetched.map (·.id)).dedup
    let requested := ((mirror.toFetch visible).map (·.id)).dedup
    let missing := requested.filter fun id => id ∉ fetchedIds
    let effectivelyVisible := visibleIds.filter fun id => id ∉ missing
    let added := (fetchedIds.filter fun id => id ∉ localIds).length
    ({ mirror with notes := mirror.storedNotes visible fetched }.recordSuccess now,
      .returned
        { added := added
          updated := fetchedIds.length - added
          removed := (localIds.filter fun id => id ∉ visibleIds).length + missing.length
          unchanged := (effectivelyVisible.length : Int) - fetchedIds.length
          fetched := fetchedIds.length
          total := effectivelyVisible.length
          lastSyncedAt := now })

/-- `sync`, with its readings of the clock: at the start, and when it records
a failure. -/
def Mirror.sync (mirror : Mirror) (policy : ScopePolicy) (now later : Timestamp)
    (treeAnswers : List TreeAnswer) (noteAnswers : List NoteAnswer) :
    Mirror × Outcome MirrorSyncReport :=
  if scopeIsClosed policy = true then
    let (purged, removed) := mirror.purgeOutOfScope policy
    (purged.recordSuccess now, .returned
        { added := 0, updated := 0, removed := removed, unchanged := 0, fetched := 0, total := 0
          lastSyncedAt := now })
  else
    match fetchTree [] treeAnswers with
    | .waiting => (mirror, .waiting)
    | .raised error => (mirror.recordFailure error later, .raised error)
    | .returned tree =>
      let visible := tree.filter (isNoteInScope policy)
      match fetchNotes [] (mirror.toFetch visible) noteAnswers with
      | .waiting => (mirror, .waiting)
      | .raised error => (mirror.recordFailure error later, .raised error)
      | .returned fetched => mirror.storeSyncResult visible fetched now

end StudioOS.ServerMirror
