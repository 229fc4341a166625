import Mathlib.Data.List.Nodup
import StudioOS.Authz

/-!
# Vault — notes, their links and their history

The writes of `services/vault.py`: `create_note` and `update_note`, with their checks, over the
three tables of a note. An old version is brought back by an update with its fields (`restoration`).
The content hash and the secret scan are functions of the text.
-/

namespace StudioOS.Vault

open Authz

inductive VaultScope where
  | studio
  | project
deriving DecidableEq

inductive VaultNoteStatus where
  | draft
  | proposed
  | validated
  | superseded
  | archived
deriving DecidableEq

inductive VaultNoteType where
  | decision
  | rule
  | convention
  | procedure
  | reference
  | lesson
  | note
deriving DecidableEq

inductive VaultLinkKind where
  | linksTo
  | relatesTo
  | derivedFrom
  | supersedes
deriving DecidableEq

inductive VaultActorType where
  | user
  | agent
  | system
deriving DecidableEq

structure VaultNoteLink where
  targetNoteId : Uuid
  kind : VaultLinkKind
deriving DecidableEq

/-- What an update may change, apart from the links. -/
structure NoteFields where
  title : String
  summary : String
  body : String
  status : VaultNoteStatus
  tags : List String
  anchors : List String
deriving DecidableEq

structure VaultNoteCreate where
  scope : VaultScope
  projectId : Option Uuid
  slug : String
  noteType : VaultNoteType
  fields : NoteFields
  links : List VaultNoteLink

/-- An absent field is left untouched. -/
structure VaultNoteUpdate where
  expectedVersion : Nat
  title : Option String
  summary : Option String
  body : Option String
  status : Option VaultNoteStatus
  tags : Option (List String)
  links : Option (List VaultNoteLink)
  anchors : Option (List String)
  changeSummary : Option String

/-- `VaultNoteModel`. -/
structure NoteRow where
  id : Uuid
  scope : VaultScope
  projectId : Option Uuid
  slug : String
  readableId : Option String
  noteType : VaultNoteType
  fields : NoteFields
  contentHash : String
  authorType : VaultActorType
  authorId : Uuid
  version : Nat

/-- `VaultNoteVersionModel`. -/
structure VersionRow where
  noteId : Uuid
  version : Nat
  fields : NoteFields
  links : List VaultNoteLink
  contentHash : String
  changeSummary : Option String
  authorType : VaultActorType
  authorId : Uuid

/-- The three tables; `links` are the link rows of a source note. -/
structure Tables where
  notes : List NoteRow
  versions : List VersionRow
  links : Uuid → List VaultNoteLink

/-- What the service computes with: the hash of a content and the fields in
which the scan finds a secret, with the pattern. -/
structure Env where
  contentHash : NoteFields → List VaultNoteLink → String
  scan : List (String × String) → List (String × String)

/-- Who calls, and as what. -/
structure Author where
  principal : Principal
  userId : Uuid
  authorType : VaultActorType

def noteNotFound : HttpError := ⟨404, [("detail", "vault note not found")]⟩

def slugConflict (slug : String) : HttpError :=
  ⟨409, [("error_code", "vault_slug_conflict"), ("slug", slug)]⟩

def versionConflict (serverVersion : Nat) : HttpError :=
  ⟨409, [("error_code", "version_conflict"), ("server_version", toString serverVersion)]⟩

def invalidLink (targetNoteId : Uuid) : HttpError :=
  ⟨422, [("error_code", "invalid_vault_link"), ("target_note_id", targetNoteId.str)]⟩

/-- A statement the database refuses. -/
def integrityError : HttpError := ⟨500, []⟩

def rejectSecrets (env : Env) (fields : List (String × String)) : Except HttpError Unit :=
  if env.scan fields = [] then .ok ()
  else .error ⟨422, ("error_code", "secret_detected") :: env.scan fields⟩

def createSecretFields (noteIn : VaultNoteCreate) : List (String × String) :=
  [("title", noteIn.fields.title), ("summary", noteIn.fields.summary),
    ("body", noteIn.fields.body), ("tags", "\n".intercalate noteIn.fields.tags)]

def updateSecretFields (noteIn : VaultNoteUpdate) : List (String × String) :=
  (noteIn.title.map ("title", ·)).toList ++ (noteIn.summary.map ("summary", ·)).toList ++
    (noteIn.body.map ("body", ·)).toList ++
    (noteIn.tags.map fun tags => ("tags", "\n".intercalate tags)).toList ++
    (noteIn.changeSummary.map ("change_summary", ·)).toList

def adminOnly : VaultNoteStatus → Bool
  | .validated | .superseded | .archived => true
  | .draft | .proposed => false

def authorizeScopeWrite (principal : Principal) (scope : VaultScope) (projectId : Option Uuid)
    (targetStatus : VaultNoteStatus) (currentStatus : Option VaultNoteStatus) :
    Except HttpError Unit :=
  match scope with
  | .project =>
    match projectId with
    | none => .error (forbidden "project" "write")
    | some projectId => do
      ensureProjectAccess principal projectId "write"
      ensureCanWrite principal "vault_note"
  | .studio => do
    ensureCanWrite principal "vault_note"
    if (adminOnly targetStatus ∨ currentStatus.any adminOnly) ∧ principal.role ≠ .admin then
      throw (forbidden "vault_note" "write")

def authorizeCreate (env : Env) (principal : Principal) (noteIn : VaultNoteCreate) :
    Except HttpError Unit := do
  authorizeScopeWrite principal noteIn.scope noteIn.projectId noteIn.fields.status none
  rejectSecrets env (createSecretFields noteIn)

/-- The check of an update against a note, by `authorize_update` and again
under the lock. -/
def authorizeUpdate (principal : Principal) (note : NoteRow) (noteIn : VaultNoteUpdate) :
    Except HttpError Unit :=
  authorizeScopeWrite principal note.scope note.projectId
    (noteIn.status.getD note.fields.status) (some note.fields.status)

/-- Two notes that the partial unique indexes keep apart. -/
def sameSlug (a b : NoteRow) : Bool :=
  a.scope = b.scope && a.slug = b.slug && (a.scope = .studio || a.projectId = b.projectId) &&
    a.fields.status ≠ .archived && b.fields.status ≠ .archived

def ensureSlugAvailable (notes : List NoteRow) (noteIn : VaultNoteCreate) : Except HttpError Unit :=
  if notes.any fun note => note.scope = noteIn.scope && note.slug = noteIn.slug &&
      note.fields.status ≠ .archived &&
      (noteIn.scope ≠ .project || note.projectId = noteIn.projectId) then
    .error (slugConflict noteIn.slug)
  else .ok ()

def validateLinks (notes : List NoteRow) (sourceProjectId : Option Uuid)
    (links : List VaultNoteLink) : Except HttpError Unit :=
  links.forM fun link =>
    match notes.find? fun note => note.id = link.targetNoteId with
    | none => .error (invalidLink link.targetNoteId)
    | some target =>
      if target.scope = .project ∧ target.projectId ≠ sourceProjectId then
        .error (invalidLink link.targetNoteId)
      else .ok ()

/-- The row `_append_version` adds. -/
def appendVersion (note : NoteRow) (links : List VaultNoteLink) (changeSummary : Option String) :
    VersionRow :=
  { noteId := note.id
    version := note.version
    fields := note.fields
    links
    contentHash := note.contentHash
    changeSummary
    authorType := note.authorType
    authorId := note.authorId }

/-- The note `create_note` adds. -/
def createdNote (env : Env) (author : Author) (id : Uuid) (readableId : Option String)
    (noteIn : VaultNoteCreate) : NoteRow :=
  { id
    scope := noteIn.scope
    projectId := noteIn.projectId
    slug := noteIn.slug
    readableId := if noteIn.noteType = .decision then readableId else none
    noteType := noteIn.noteType
    fields := noteIn.fields
    contentHash := env.contentHash noteIn.fields noteIn.links
    authorType := author.authorType
    authorId := author.userId
    version := 1 }

def updatedFields (fields : NoteFields) (noteIn : VaultNoteUpdate) : NoteFields :=
  { title := noteIn.title.getD fields.title
    summary := noteIn.summary.getD fields.summary
    body := noteIn.body.getD fields.body
    status := noteIn.status.getD fields.status
    tags := noteIn.tags.getD fields.tags
    anchors := noteIn.anchors.getD fields.anchors }

/-- The note `update_note` assigns, with the links it will have. -/
def updatedNote (env : Env) (author : Author) (note : NoteRow) (noteIn : VaultNoteUpdate)
    (links : List VaultNoteLink) : NoteRow :=
  { note with
    fields := updatedFields note.fields noteIn
    version := note.version + 1
    authorType := author.authorType
    authorId := author.userId
    contentHash := env.contentHash (updatedFields note.fields noteIn) links }

/-- What a flush leaves of a note, column by column: the columns an update
assigns, where they differ from those of the object it loaded. -/
def flushNote (loaded assigned current : NoteRow) : NoteRow :=
  { current with
    fields :=
      { title := flushed loaded.fields.title assigned.fields.title current.fields.title
        summary := flushed loaded.fields.summary assigned.fields.summary current.fields.summary
        body := flushed loaded.fields.body assigned.fields.body current.fields.body
        status := flushed loaded.fields.status assigned.fields.status current.fields.status
        tags := flushed loaded.fields.tags assigned.fields.tags current.fields.tags
        anchors := flushed loaded.fields.anchors assigned.fields.anchors current.fields.anchors }
    contentHash := flushed loaded.contentHash assigned.contentHash current.contentHash
    authorType := flushed loaded.authorType assigned.authorType current.authorType
    authorId := flushed loaded.authorId assigned.authorId current.authorId
    version := flushed loaded.version assigned.version current.version }

/-- What a transaction writes when it commits. -/
inductive Write where
  | insert (note : NoteRow) (version : VersionRow) (links : List VaultNoteLink)
  | update (loaded assigned : NoteRow) (version : VersionRow) (links : Option (List VaultNoteLink))

/-- The rows of `_replace_links` meet their key and the check against a link to
the note itself. -/
def linksInsertable (noteId : Uuid) (links : List VaultNoteLink) : Bool :=
  decide links.Nodup && links.all fun link => link.targetNoteId ≠ noteId

/-- The key of the history is free. -/
def versionInsertable (tables : Tables) (row : VersionRow) : Bool :=
  tables.versions.all fun other => ¬ (other.noteId = row.noteId ∧ other.version = row.version)

def slugFree (tables : Tables) (note : NoteRow) : Bool :=
  tables.notes.all fun other => other.id = note.id || !sameSlug other note

/-- The tables after a commit, or the error of the statement that the database
refuses; the transaction is then rolled back. -/
def Write.apply (tables : Tables) : Write → Except HttpError Tables
  | .insert note version links => do
    if tables.notes.any fun other => other.id = note.id then throw (slugConflict note.slug)
    if ¬ slugFree tables note then throw (slugConflict note.slug)
    if ¬ versionInsertable tables version ∨ ¬ linksInsertable note.id links then
      throw integrityError
    return {
      notes := tables.notes ++ [note]
      versions := tables.versions ++ [version]
      links := Function.update tables.links note.id links }
  | .update loaded assigned version links => do
    let notes := tables.notes.map fun current =>
      if current.id = assigned.id then flushNote loaded assigned current else current
    if notes.any fun note => note.id = assigned.id && !slugFree { tables with notes } note then
      throw integrityError
    if ¬ versionInsertable tables version ∨ links.any fun links =>
        !linksInsertable assigned.id links then
      throw integrityError
    return {
      notes
      versions := tables.versions ++ [version]
      links := links.elim tables.links (Function.update tables.links assigned.id) }

end StudioOS.Vault
