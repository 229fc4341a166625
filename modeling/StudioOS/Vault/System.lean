import Mathlib.Data.List.Perm.Basic
import StudioOS.Library.Runs
import StudioOS.Vault.Model

/-!
# System — concurrent writers of the vault

Any number of callers, each with a transaction of its own, cut where it talks to the database. A
caller that `authorize_update` served may have the note in the identity map of its session:
`_lock_note` then waits for the row but returns the object as it was loaded. A caller may lose its
transaction at any point.
-/

namespace StudioOS.Vault

open Authz Runs

/-- Where a caller stands. -/
inductive Phase where
  | idle
  /-- `create_note`, authorized. -/
  | creating (author : Author) (noteIn : VaultNoteCreate)
  /-- `_ensure_slug_available` passed. -/
  | available (author : Author) (noteIn : VaultNoteCreate)
  /-- `update_note` before `_lock_note`; `held` is the object of `authorize_update`. -/
  | opened (author : Author) (noteId : Uuid) (noteIn : VaultNoteUpdate) (held : Option NoteRow)
  /-- The row is locked and the checks passed on `note`. -/
  | locked (author : Author) (noteIn : VaultNoteUpdate) (note : NoteRow)
  /-- `load_links` answered. -/
  | loaded (author : Author) (noteIn : VaultNoteUpdate) (note : NoteRow)
      (current : List VaultNoteLink)
  /-- Everything is assigned and not yet committed; `noteIn` is the update, if it is one. -/
  | writing (noteIn : Option VaultNoteUpdate) (write : Write)
  | done (error : Option HttpError)

structure State where
  tables : Tables
  locks : Uuid → Option Nat
  callers : Nat → Phase

def State.initial : State :=
  { tables := { notes := [], versions := [], links := fun _ => [] }
    locks := fun _ => none
    callers := fun _ => .idle }

def State.setPhase (s : State) (i : Nat) (phase : Phase) : State :=
  { s with callers := Function.update s.callers i phase }

/-- The end of a transaction, by a commit or by a rollback. -/
def State.finish (s : State) (i : Nat) (error : Option HttpError) : State :=
  { s.setPhase i (.done error) with
    locks := fun id => if s.locks id = some i then none else s.locks id }

def State.note (s : State) (id : Uuid) : Option NoteRow :=
  s.tables.notes.find? fun note => note.id = id

inductive Action where
  | create (i : Nat) (author : Author) (noteIn : VaultNoteCreate)
  /-- A request to `update_note`; one that `authorize_update` served first may keep
  the note it read. -/
  | update (i : Nat) (author : Author) (noteId : Uuid) (noteIn : VaultNoteUpdate)
      (authorizes keeps : Bool)
  | checkSlug (i : Nat)
  /-- The links are validated and the rows built; the database has generated the
  identifier and the readable one. -/
  | stageCreate (i : Nat) (id : Uuid) (readableId : Option String)
  | lock (i : Nat)
  /-- `load_links`; the rows come in some order. -/
  | load (i : Nat) (rows : List VaultNoteLink)
  | stageUpdate (i : Nat)
  | commit (i : Nat)
  | abort (i : Nat)

/-- What a caller does with the answer of a check. -/
def State.answer (s : State) (i : Nat) (check : Except HttpError Phase) : State :=
  match check with
  | .ok phase => s.setPhase i phase
  | .error error => s.finish i (some error)

/-- `update_note` up to `_lock_note`, `authorize_update` included. -/
def openUpdate (env : Env) (s : State) (author : Author) (noteId : Uuid) (noteIn : VaultNoteUpdate)
    (authorizes keeps : Bool) : Except HttpError Phase := do
  rejectSecrets env (updateSecretFields noteIn)
  if authorizes then
    match s.note noteId with
    | none => throw noteNotFound
    | some note =>
      authorizeUpdate author.principal note noteIn
      return .opened author noteId noteIn (if keeps then some note else none)
  else return .opened author noteId noteIn none

/-- `_lock_note` and the checks under the lock, on the object the session has. -/
def lockNote (s : State) (author : Author) (noteId : Uuid) (noteIn : VaultNoteUpdate)
    (held : Option NoteRow) : Except HttpError Phase :=
  match s.note noteId with
  | none => .error noteNotFound
  | some row => do
    let note := held.getD row
    authorizeUpdate author.principal note noteIn
    if note.version ≠ noteIn.expectedVersion then throw (versionConflict note.version)
    return .locked author noteIn note

/-- The rest of `update_note`. -/
def stageUpdate (env : Env) (s : State) (author : Author) (noteIn : VaultNoteUpdate)
    (note : NoteRow) (current : List VaultNoteLink) : Except HttpError Phase := do
  noteIn.links.elim (pure ()) (validateLinks s.tables.notes note.projectId)
  let links := noteIn.links.getD current
  let assigned := updatedNote env author note noteIn links
  return .writing (some noteIn)
    (.update note assigned (appendVersion assigned links noteIn.changeSummary) noteIn.links)

/-- The rest of `create_note`. -/
def stageCreate (env : Env) (s : State) (author : Author) (noteIn : VaultNoteCreate) (id : Uuid)
    (readableId : Option String) : Except HttpError Phase := do
  validateLinks s.tables.notes noteIn.projectId noteIn.links
  let note := createdNote env author id readableId noteIn
  return .writing none (.insert note (appendVersion note noteIn.links none) noteIn.links)

def step (env : Env) (s : State) : Action → Option State
  | .create i author noteIn =>
    match s.callers i with
    | .idle => some (s.answer i do
        authorizeCreate env author.principal noteIn
        return .creating author noteIn)
    | _ => none
  | .update i author noteId noteIn authorizes keeps =>
    match s.callers i with
    | .idle => some (s.answer i (openUpdate env s author noteId noteIn authorizes keeps))
    | _ => none
  | .checkSlug i =>
    match s.callers i with
    | .creating author noteIn => some (s.answer i do
        ensureSlugAvailable s.tables.notes noteIn
        return .available author noteIn)
    | _ => none
  | .stageCreate i id readableId =>
    match s.callers i with
    | .available author noteIn => some (s.answer i (stageCreate env s author noteIn id readableId))
    | _ => none
  | .lock i =>
    match s.callers i with
    | .opened author noteId noteIn held =>
      -- `FOR UPDATE` waits for the transaction that has the row
      if s.locks noteId = none then
        some ({ s with locks := Function.update s.locks noteId (some i) }.answer i
          (lockNote s author noteId noteIn held))
      else none
    | _ => none
  | .load i rows =>
    match s.callers i with
    | .locked author noteIn note =>
      if rows.Perm (s.tables.links note.id) then
        some (s.setPhase i (.loaded author noteIn note rows))
      else none
    | _ => none
  | .stageUpdate i =>
    match s.callers i with
    | .loaded author noteIn note current =>
      some (s.answer i (stageUpdate env s author noteIn note current))
    | _ => none
  | .commit i =>
    match s.callers i with
    | .writing _ write =>
      match write.apply s.tables with
      | .ok tables => some ({ s with tables }.finish i none)
      | .error error => some (s.finish i (some error))
    | _ => none
  | .abort i => some (s.finish i none)

end StudioOS.Vault
