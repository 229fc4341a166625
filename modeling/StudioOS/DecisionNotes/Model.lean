import StudioOS.DecisionNumbers.Model
import StudioOS.Library.Runs
import StudioOS.Vault.Model

/-!
# Decision notes — Model

The three writers of the vault notes of decisions: `create_decision`, which stages a note with its
decision, the decision import, and the transitions `accept_decision` and `supersede_decision`. Each
is one transaction; the rows that it locks keep the others out. The report of the import and the
events of a transition are left out.
-/

namespace StudioOS.DecisionNotes

open Authz DecisionNumbers
open Vault (NoteFields VaultActorType VaultLinkKind VaultNoteStatus VaultScope)

inductive DecisionStatus where
  | proposed
  | accepted
  | superseded
deriving DecidableEq

def DecisionStatus.value : DecisionStatus → String
  | .proposed => "proposed"
  | .accepted => "accepted"
  | .superseded => "superseded"

/-- The text of a number. -/
def text (id : ReadableId) : String :=
  "DEC-" ++ String.ofList (id.digits.reverse.map Nat.digitChar)

/-- `DecisionModel`. -/
structure Decision where
  readableId : ReadableId
  projectId : Option Uuid
  taskId : Option Uuid
  title : String
  body : String
  status : DecisionStatus
  proposedByType : String
  proposedById : Uuid

structure DecisionCreate where
  projectId : Option Uuid
  taskId : Option Uuid
  title : String
  body : String
  proposedByType : String
  proposedById : Uuid

/-- `VaultNoteModel` of type decision. -/
structure Note where
  scope : VaultScope
  projectId : Option Uuid
  slug : String
  readableId : Option ReadableId
  fields : NoteFields
  contentHash : String
  authorType : VaultActorType
  authorId : Uuid
  version : Nat
  /-- The number of the decision that it was staged from; none for an ADR that
  is no decision of the server. -/
  decision : Option ReadableId
deriving DecidableEq

/-- `VaultNoteLinkModel`. -/
structure Link where
  source : Nat
  target : Nat
  kind : VaultLinkKind
deriving DecidableEq

/-- `VaultNoteVersionModel`. -/
structure Version where
  note : Nat
  version : Nat
  fields : NoteFields
  links : List Link
  contentHash : String
  changeSummary : Option String
  authorType : VaultActorType
  authorId : Uuid

structure State where
  decisions : List Decision
  notes : List Note
  links : List Link
  versions : List Version
  seq : Sequence

/-- The functions of a text that the services compute with. -/
structure Env where
  /-- `clean_title`. -/
  cleanTitle : String → String
  /-- `_slug`. -/
  slug : String → ReadableId → String → String
  /-- `_summary`. -/
  summary : String → String
  /-- `_URL_CREDENTIALS_RE.sub`. -/
  redact : String → String
  /-- The fields in which the scan finds a secret, with the pattern. -/
  scan : List (String × String) → List (String × String)
  /-- `_compute_hash`. -/
  contentHash : NoteFields → List Link → String
  /-- `title_ratio`. -/
  titleRatio : String → String → Rat

structure Caller where
  principal : Principal
  userId : Uuid

def decisionNotFound : HttpError := ⟨404, [("detail", "decision not found")]⟩

def invalidDecisionTransition (current target : DecisionStatus) : HttpError :=
  ⟨409, [("error_code", "invalid_decision_transition"),
    ("message", "cannot set status '" ++ target.value ++ "' from '" ++ current.value ++ "'")]⟩

def invalidSupersedeLink (detail : String) : HttpError :=
  ⟨422, [("error_code", "invalid_decision_link"), ("message", detail)]⟩

def titleMax : Nat := 200

def bodyMax : Nat := 262144

/-- The first characters of a text. -/
def clip (limit : Nat) (value : String) : String := String.ofList (value.toList.take limit)

/-- `value or other`. -/
def orElse (value other : String) : String := if value = "" then other else value

/-- `_NOTE_STATUS`. -/
def DecisionStatus.note : DecisionStatus → VaultNoteStatus
  | .proposed => .proposed
  | .accepted => .validated
  | .superseded => .superseded

/-- `_scope`. -/
def scopeOf (projectId : Option Uuid) : VaultScope :=
  if projectId.isSome then .project else .studio

/-- The unique indexes of the notes: no number twice, and no slug twice among
the notes of a scope that are not archived. -/
def insertable (notes : List Note) (note : Note) : Bool :=
  notes.all fun other =>
    (note.readableId.isNone || other.readableId ≠ note.readableId) &&
      !(other.scope = note.scope && other.slug = note.slug && other.projectId = note.projectId &&
        other.fields.status ≠ .archived && note.fields.status ≠ .archived)

def State.appendVersion (s : State) (place : Nat) (note : Note) (links : List Link)
    (changeSummary : Option String) : State :=
  { s with versions := s.versions ++
      [{ note := place
         version := note.version
         fields := note.fields
         links := links
         contentHash := note.contentHash
         changeSummary := changeSummary
         authorType := note.authorType
         authorId := note.authorId }] }

/-- A note is added with its first version, unless an index refuses it. -/
def State.insertNote (s : State) (note : Note) (changeSummary : Option String) : Option State :=
  if insertable s.notes note then
    some ({ s with notes := s.notes ++ [note] }.appendVersion s.notes.length note [] changeSummary)
  else none

/-- The note that `stage_note` adds. -/
def Env.mirror (env : Env) (decision : Decision) (authorId : Uuid) : Note :=
  let title := orElse (clip titleMax (env.cleanTitle decision.title)) (text decision.readableId)
  let body := clip bodyMax (orElse decision.body title)
  let fields : NoteFields :=
    { title := title
      summary := env.summary body
      body := body
      status := decision.status.note
      tags := []
      anchors := (decision.taskId.map fun taskId => "task:" ++ taskId.str).toList }
  { scope := scopeOf decision.projectId
    projectId := decision.projectId
    slug := env.slug "decisions" decision.readableId decision.title
    readableId := some decision.readableId
    fields := fields
    contentHash := env.contentHash fields []
    authorType := if decision.proposedByType = "agent" then .agent else .user
    authorId := authorId
    version := 1
    decision := some decision.readableId }

def Env.stageNote (env : Env) (s : State) (decision : Decision) (authorId : Uuid) : Option State :=
  s.insertNote (env.mirror decision authorId) none

def State.noteFor (s : State) (id : ReadableId) : Option Nat :=
  s.notes.findIdx? fun note => note.readableId = some id

def State.linksOf (s : State) (place : Nat) : List Link :=
  s.links.filter fun link => link.source = place

/-- A new version of a note, by a user. -/
def Env.rewrite (env : Env) (note : Note) (fields : NoteFields) (links : List Link)
    (authorId : Uuid) : Note :=
  { note with
    fields := fields
    version := note.version + 1
    authorType := .user
    authorId := authorId
    contentHash := env.contentHash fields links }

/-- `sync_status`: the state after it and the place of the note. -/
def Env.syncStatus (env : Env) (s : State) (decision : Decision) (authorId : Uuid) :
    Option (State × Nat) :=
  match s.noteFor decision.readableId with
  | none => (env.stageNote s decision authorId).map fun t => (t, s.notes.length)
  | some place =>
    match s.notes[place]? with
    | none => none
    | some note =>
      if note.fields.status = decision.status.note then some (s, place)
      else
        let links := s.linksOf place
        let new := env.rewrite note { note.fields with status := decision.status.note } links
          authorId
        some ({ s with notes := s.notes.set place new }.appendVersion place new links
          (some ("decision " ++ decision.status.value)), place)

/-- The note of the replacement in `link_supersedes`, staged when it is missing. -/
def Env.noteOf (env : Env) (s : State) (replacement : Decision) (authorId : Uuid) :
    Except HttpError (State × Nat) :=
  match s.noteFor replacement.readableId with
  | some place => .ok (s, place)
  | none =>
    match env.stageNote s replacement authorId with
    | some t => .ok (t, s.notes.length)
    | none => .error Vault.integrityError

/-- The link from the note at `newPlace` to the one at `oldPlace`. -/
def Env.addLink (env : Env) (s : State) (newPlace oldPlace : Nat) (oldNote : Note)
    (authorId : Uuid) : Except HttpError State :=
  match s.notes[newPlace]? with
  | none => .error Vault.integrityError
  | some newNote =>
    let links := s.linksOf newPlace
    let link : Link := ⟨newPlace, oldPlace, .supersedes⟩
    if link ∈ links then .ok s
    else
      let new := env.rewrite newNote newNote.fields (links ++ [link]) authorId
      .ok ({ s with
        notes := s.notes.set newPlace new
        links := s.links ++ [link] }.appendVersion newPlace new (links ++ [link])
          (some ("supersedes " ++ (oldNote.readableId.elim "None" text))))

def Env.linkSupersedes (env : Env) (s : State) (oldPlace : Nat) (oldNote : Note)
    (replacement : Decision) (authorId : Uuid) : Except HttpError State :=
  if oldNote.scope = .project ∧ replacement.projectId ≠ oldNote.projectId then
    .error (invalidSupersedeLink "replacement decision is outside the superseded one's project")
  else do
    let (t, newPlace) ← env.noteOf s replacement authorId
    env.addLink t newPlace oldPlace oldNote authorId

/-- `_ALLOWED_TRANSITIONS`. -/
def DecisionStatus.allowedFrom : DecisionStatus → List DecisionStatus
  | .accepted => [.proposed]
  | .superseded => [.proposed, .accepted]
  | .proposed => []

def ensureDecisionScope (principal : Principal) (projectId : Option Uuid) (action : String) :
    Except HttpError Unit :=
  match projectId with
  | none => ensureSharedAccess principal action
  | some projectId => ensureProjectAccess principal projectId action

/-- `authorize_create` and `reject_secrets`. -/
def Env.authorizeCreate (env : Env) (principal : Principal) (decisionIn : DecisionCreate) :
    Except HttpError Unit := do
  ensureDecisionScope principal decisionIn.projectId "write"
  ensureCanWrite principal "decision"
  let found := env.scan [("title", decisionIn.title), ("body", decisionIn.body)]
  if found ≠ [] then throw ⟨422, ("error_code", "secret_detected") :: found⟩

def newDecision (readableId : ReadableId) (decisionIn : DecisionCreate) : Decision :=
  { readableId := readableId
    projectId := decisionIn.projectId
    taskId := decisionIn.taskId
    title := decisionIn.title
    body := decisionIn.body
    status := .proposed
    proposedByType := decisionIn.proposedByType
    proposedById := decisionIn.proposedById }

/-- `_next_readable_id`, which no rollback takes back. -/
def State.draw (s : State) : State := { s with seq := ⟨s.seq.next, true⟩ }

/-- The inserts of `create_decision` with the number that was drawn. -/
def Env.insertDecision (env : Env) (s : State) (decision : Decision) (authorId : Uuid) :
    Option State :=
  if s.decisions.any (·.readableId = decision.readableId) then none
  else env.stageNote { s with decisions := s.decisions ++ [decision] } decision authorId

/-- `create_decision`; when an insert fails the number is lost. -/
def Env.createDecision (env : Env) (s : State) (caller : Caller) (decisionIn : DecisionCreate) :
    State × Except HttpError Unit :=
  match env.authorizeCreate caller.principal decisionIn with
  | .error e => (s, .error e)
  | .ok _ =>
    match env.insertDecision s.draw (newDecision (readableId s.seq.next) decisionIn)
        caller.userId with
    | some t => (t, .ok ())
    | none => (s.draw, .error Vault.integrityError)

/-- `_replacement`. -/
def replacementOf (s : State) (principal : Principal) (decisionId supersededBy : Nat) :
    Except HttpError Decision :=
  if supersededBy = decisionId then
    .error (invalidSupersedeLink "a decision cannot supersede itself")
  else
    match s.decisions[supersededBy]? with
    | none => .error decisionNotFound
    | some replacement => do
      ensureDecisionScope principal replacement.projectId "write"
      return replacement

/-- The status check of `_transition_decision`, and the replacement. -/
def checkReplacement (s : State) (principal : Principal) (decisionId : Nat) (decision : Decision)
    (target : DecisionStatus) (supersededBy : Option Nat) : Except HttpError (Option Decision) :=
  if decision.status ∉ target.allowedFrom then
    .error (invalidDecisionTransition decision.status target)
  else
    match supersededBy with
    | none => .ok none
    | some supersededBy => (replacementOf s principal decisionId supersededBy).map some

/-- The checks of `_transition_decision`: the decision and its replacement. -/
def checkTransition (s : State) (principal : Principal) (decisionId : Nat)
    (target : DecisionStatus) (supersededBy : Option Nat) :
    Except HttpError (Decision × Option Decision) := do
  ensureCanWrite principal "decision"
  if principal.role ≠ .admin then .error (forbidden "decision" target.value)
  else
    match s.decisions[decisionId]? with
    | none => .error decisionNotFound
    | some decision => do
      ensureDecisionScope principal decision.projectId "write"
      let replacement ← checkReplacement s principal decisionId decision target supersededBy
      return (decision, replacement)

/-- What `_transition_decision` then writes. -/
def Env.writeTransition (env : Env) (s : State) (decisionId : Nat) (decision : Decision)
    (replacement : Option Decision) (authorId : Uuid) : Except HttpError State :=
  match env.syncStatus { s with decisions := s.decisions.set decisionId decision } decision
      authorId with
  | none => .error Vault.integrityError
  | some (t, place) =>
    match replacement, t.notes[place]? with
    | none, _ => .ok t
    | some _, none => .error Vault.integrityError
    | some replacement, some note => env.linkSupersedes t place note replacement authorId

def Env.transition (env : Env) (s : State) (caller : Caller) (decisionId : Nat)
    (target : DecisionStatus) (supersededBy : Option Nat) : Except HttpError State := do
  let (decision, replacement) ←
    checkTransition s caller.principal decisionId target supersededBy
  env.writeTransition s decisionId { decision with status := target } replacement caller.userId

/-! ## `vault_decision_import.py` -/

structure SourceDecision where
  readableId : ReadableId
  title : String
  body : String
  rawStatus : Option String
  projectId : Option Uuid

structure PlannedNote where
  readableId : Option ReadableId
  scope : VaultScope
  projectId : Option Uuid
  slug : String
  fields : NoteFields
  /-- The decision of the server that the plan takes it for. -/
  decision : Option ReadableId

/-- `load_server_decisions`. -/
def sourceOf (decision : Decision) : SourceDecision :=
  { readableId := decision.readableId
    title := decision.title
    body := decision.body
    rawStatus := some decision.status.value
    projectId := decision.projectId }

/-- `_FILE_STATUS`, of the status in lower case. -/
def fileStatus : String → Option VaultNoteStatus
  | "accepted" | "active" | "validated" => some .validated
  | "proposed" => some .proposed
  | "superseded" => some .superseded
  | _ => none

/-- `_SERVER_STATUS`, of the status in lower case. -/
def serverStatus : String → Option VaultNoteStatus
  | "accepted" => some .validated
  | "proposed" => some .proposed
  | "superseded" => some .superseded
  | _ => none

def SourceDecision.status (source : SourceDecision) : String := (source.rawStatus.getD "").toLower

def Env.planned (env : Env) (source : SourceDecision) (status : VaultNoteStatus) (numbered : Bool)
    (extraTags : List String) (decision : Option ReadableId) : PlannedNote :=
  let title := clip titleMax (env.cleanTitle source.title)
  { readableId := if numbered then some source.readableId else none
    scope := scopeOf source.projectId
    projectId := source.projectId
    slug := env.slug (if numbered then "decisions" else "decisions/legacy-server")
      source.readableId source.title
    fields :=
      { title := title
        summary := env.summary source.body
        body := orElse source.body title
        status := status
        tags := "dec-import" :: extraTags
        anchors := [] }
    decision := decision }

def reviewedSameDecision : List ReadableId := [44, 56, 95, 137, 162, 182].map readableId

/-- The file and the row of the server with its number are different decisions. -/
def Env.differs (env : Env) (file server : SourceDecision) : Bool :=
  env.titleRatio file.title server.title < 3 / 5 && file.readableId ∉ reviewedSameDecision

def byNumber (sources : List SourceDecision) (id : ReadableId) : Option SourceDecision :=
  sources.reverse.find? fun source => source.readableId = id

def serverNoteStatus (server : SourceDecision) : VaultNoteStatus :=
  (serverStatus server.status).getD .proposed

/-- The note of a file: its own status, else that of the server. -/
def Env.plannedFile (env : Env) (file : SourceDecision) (server : Option SourceDecision) :
    PlannedNote :=
  let status := (fileStatus file.status).getD ((server.map serverNoteStatus).getD .proposed)
  let same := server.filter fun server => !env.differs file server
  env.planned file status true [] (same.map SourceDecision.readableId)

/-- The notes that `plan_import` makes of one number. -/
def Env.planNumber (env : Env) (files server : List SourceDecision) (id : ReadableId) :
    List PlannedNote :=
  match byNumber files id, byNumber server id with
  | none, none => []
  | some file, none => [env.plannedFile file none]
  | none, some server =>
    [env.planned server (serverNoteStatus server) true [] (some server.readableId)]
  | some file, some server =>
    env.plannedFile file (some server) ::
      if env.differs file server then
        [env.planned server (serverNoteStatus server) false
          ["legacy-server-dec-" ++ String.ofList (id.digits.reverse.map Nat.digitChar)]
          (some server.readableId)]
      else []

/-- The passwords are dropped from the body and, if there are any, from the summary. -/
def Env.redacted (env : Env) (note : PlannedNote) : PlannedNote :=
  if env.redact note.fields.body = note.fields.body then note
  else
    { note with fields := { note.fields with
        body := env.redact note.fields.body
        summary := env.redact note.fields.summary } }

/-- `_rejection`. -/
def Env.rejected (env : Env) (note : PlannedNote) : Bool :=
  bodyMax < note.fields.body.length ||
    env.scan [("title", note.fields.title), ("summary", note.fields.summary),
      ("body", note.fields.body)] ≠ []

/-- The planned notes of `plan_import`, the numbers taken in the order of `numbers`. -/
def Env.planImport (env : Env) (files server : List SourceDecision) (numbers : List ReadableId) :
    List PlannedNote :=
  ((numbers.flatMap (env.planNumber files server)).map env.redacted).filter
    fun note => !env.rejected note

/-- The numbers of both sources in the order of `sorted`, which leaves the
order of equal ones to the set. -/
def IsOrder (files server : List SourceDecision) (numbers : List ReadableId) : Prop :=
  numbers.Nodup ∧ numbers.Pairwise (fun a b => a.number ≤ b.number) ∧
    (∀ id ∈ numbers, id ∈ files.map SourceDecision.readableId ∨
      id ∈ server.map SourceDecision.readableId) ∧
    ∀ source ∈ files ++ server, source.readableId ∈ numbers

instance (files server : List SourceDecision) (numbers : List ReadableId) :
    Decidable (IsOrder files server numbers) :=
  inferInstanceAs (Decidable (_ ∧ _ ∧ _ ∧ _))

def slugTaken (notes : List Note) (planned : PlannedNote) : Bool :=
  notes.any fun note => note.scope = planned.scope && note.slug = planned.slug &&
    note.fields.status ≠ .archived &&
      (planned.projectId.isNone || note.projectId = planned.projectId)

/-- Whether `_existing` finds a note. -/
def isThere (notes : List Note) (planned : PlannedNote) : Bool :=
  match planned.readableId with
  | some id => notes.any fun note => note.readableId = some id
  | none => slugTaken notes planned

def Env.importedNote (env : Env) (planned : PlannedNote) (authorId : Uuid) : Note :=
  { scope := planned.scope
    projectId := planned.projectId
    slug := planned.slug
    readableId := planned.readableId
    fields := planned.fields
    contentHash := env.contentHash planned.fields []
    authorType := .system
    authorId := authorId
    version := 1
    decision := planned.decision }

/-- One planned note of `apply_plan`. -/
def Env.applyNote (env : Env) (authorId : Uuid) (s : State) (planned : PlannedNote) :
    Option State :=
  if isThere s.notes planned || slugTaken s.notes planned then some s
  else s.insertNote (env.importedNote planned authorId) (some "import P08 (DEC-0192)")

def State.advanceSequence (s : State) (floor : Nat) : State :=
  let highest := max floor (max (maxNumber (s.decisions.map (·.readableId)))
    (maxNumber (s.notes.filterMap (·.readableId))))
  if s.seq.next ≤ highest then { s with seq := ⟨highest, true⟩ } else s

/-- `apply_plan` of the plan of the files and of the decisions that are there. -/
def Env.importDecisions (env : Env) (s : State) (files : List SourceDecision)
    (numbers : List ReadableId) (authorId : Uuid) : Option State :=
  let server := s.decisions.map sourceOf
  if IsOrder files server numbers then
    ((env.planImport files server numbers).foldlM (env.applyNote authorId) s).map fun t =>
      t.advanceSequence (maxNumber numbers)
  else none

inductive Act where
  | createDecision (caller : Caller) (decisionIn : DecisionCreate)
  | importDecisions (files : List SourceDecision) (numbers : List ReadableId) (authorId : Uuid)
  | acceptDecision (caller : Caller) (decisionId : Nat)
  | supersedeDecision (caller : Caller) (decisionId : Nat) (supersededBy : Option Nat)

def Env.step (env : Env) (s : State) : Act → Option State
  | .createDecision caller decisionIn => some (env.createDecision s caller decisionIn).1
  | .importDecisions files numbers authorId => env.importDecisions s files numbers authorId
  | .acceptDecision caller decisionId =>
    (env.transition s caller decisionId .accepted none).toOption
  | .supersedeDecision caller decisionId supersededBy =>
    (env.transition s caller decisionId .superseded supersededBy).toOption

end StudioOS.DecisionNotes
