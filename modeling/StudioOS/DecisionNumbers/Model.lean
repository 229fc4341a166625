import Mathlib.Data.Nat.Digits.Defs
import StudioOS.Authz

/-!
# Decision numbers — Model

Who draws and who uses the numbers of decisions: `create_decision`, the creation of a vault note of
type decision, and the `apply_plan` of the decision import with `_advance_sequence`. Sessions take
their statements in any order. A statement on the sequence is atomic and never rolled back; a row is
seen by the others when it is committed.
-/

namespace StudioOS.DecisionNumbers

open Authz

/-- `DEC-` and at least four digits (`_DEC_ID_RE`), the last digit first. -/
structure ReadableId where
  digits : List Nat
  decimal : ∀ d ∈ digits, d < 10
  padded : 4 ≤ digits.length
deriving DecidableEq

def ReadableId.number (id : ReadableId) : Nat := Nat.ofDigits 10 id.digits

/-- `f"DEC-{value:04d}"`. -/
def readableId (value : Nat) : ReadableId where
  digits := Nat.digits 10 value ++ List.replicate (4 - (Nat.digits 10 value).length) 0
  decimal := by
    intro d hd
    rcases List.mem_append.mp hd with hd | hd
    · exact Nat.digits_lt_base (by decide) hd
    · rw [List.eq_of_mem_replicate hd]
      decide
  padded := by
    rw [List.length_append, List.length_replicate]
    omega

@[simp] theorem number_readableId (value) : (readableId value).number = value := by
  rw [ReadableId.number, readableId, Nat.ofDigits_append, Nat.ofDigits_digits,
    Nat.ofDigits_replicate_zero]
  omega

/-- The sequence `decisions_readable_id_seq`. -/
structure Sequence where
  lastValue : Nat
  isCalled : Bool

/-- The number that `nextval` returns. -/
def Sequence.next (seq : Sequence) : Nat :=
  if seq.isCalled then seq.lastValue + 1 else seq.lastValue

/-- Where a note stands; its scope is the project's or the studio's. -/
structure Place where
  projectId : Option Uuid
  slug : String
deriving DecidableEq

/-- `VaultNoteModel`, as far as the import reads it. -/
structure NoteRow where
  readableId : Option ReadableId
  place : Place
  contentHash : String
  archived : Bool

structure PlannedNote where
  readableId : Option ReadableId
  place : Place
  contentHash : String

/-- `ImportPlan`; `plan_import` takes the maximum over every number that it
reads. -/
structure ImportPlan where
  notes : List PlannedNote
  maxNumber : Nat
  bounded : ∀ note ∈ notes, ∀ id ∈ note.readableId, id.number ≤ maxNumber

def ImportPlan.ids (plan : ImportPlan) : List ReadableId := plan.notes.filterMap (·.readableId)

inductive Work where
  /-- `create_decision` of a decision with this project, title and hash. -/
  | createDecision (projectId : Option Uuid) (title contentHash : String)
  /-- `create_note` of a note of type decision. -/
  | createNote (place : Place) (contentHash : String) (archived : Bool)
  | applyPlan (plan : ImportPlan)

/-- The next statement of a session. -/
inductive Phase where
  /-- `_next_readable_id`. -/
  | drawing
  /-- The insert of the decision. -/
  | decisionFlush (id : ReadableId)
  /-- The insert of the note, in `stage_note` or `create_note`. -/
  | noteFlush (id : ReadableId)
  /-- `_existing` and `_slug_taken` of the next planned note. -/
  | looking (rest : List PlannedNote)
  /-- The insert of a planned note. -/
  | flushing (note : PlannedNote) (rest : List PlannedNote)
  /-- `_max_number` of the decisions. -/
  | decisionMax
  /-- `_max_number` of the notes. -/
  | vaultMax (decisionMax : Nat)
  /-- `SELECT last_value, is_called`. -/
  | lastValue (highest : Nat)
  /-- `SELECT setval`. -/
  | setval (highest : Nat)
  | committing
  | done
  /-- Rolled back: a number was there already. -/
  | duplicate
  /-- Rolled back for another reason. -/
  | failed

/-- The session is under way. -/
def Phase.running : Phase → Bool
  | .done | .duplicate | .failed => false
  | _ => true

structure Session where
  work : Work
  phase : Phase
  /-- The rows that it has inserted and not committed. -/
  decisions : List ReadableId
  notes : List NoteRow

/-- The first statement. -/
def Work.start : Work → Phase
  | .applyPlan plan => .looking plan.notes
  | _ => .drawing

/-- What a creation inserts first with its number. -/
def Work.afterDraw (id : ReadableId) : Work → Phase
  | .createDecision .. => .decisionFlush id
  | _ => .noteFlush id

structure State where
  seq : Sequence
  /-- The committed rows. -/
  decisions : List ReadableId
  notes : List NoteRow
  sessions : List Session
  /-- The numbers handed out so far, the last one first. -/
  handedOut : List Nat

def numbered (notes : List NoteRow) : List ReadableId := notes.filterMap (·.readableId)

def State.seenDecisions (s : State) (session : Session) : List ReadableId :=
  s.decisions ++ session.decisions

def State.seenNotes (s : State) (session : Session) : List NoteRow := s.notes ++ session.notes

def State.put (s : State) (i : Nat) (session : Session) : State :=
  { s with sessions := s.sessions.set i session }

/-- Ends the transaction without its rows. -/
def Session.rollback (session : Session) (phase : Phase) : Session :=
  { session with phase := phase, decisions := [], notes := [] }

/-- `_max_number`: no row gives zero. -/
def maxNumber (ids : List ReadableId) : Nat := (ids.map ReadableId.number).foldr max 0

def existing (notes : List NoteRow) (planned : PlannedNote) : Option NoteRow :=
  match planned.readableId with
  | some id => notes.find? fun note => note.readableId = some id
  | none => notes.find? fun note => note.place = planned.place ∧ note.archived = false

def slugTaken (notes : List NoteRow) (planned : PlannedNote) : Bool :=
  notes.any fun note => note.place = planned.place ∧ note.archived = false

/-- What is outside this part of the program. -/
structure Env where
  /-- `_slug("decisions", readable_id, title)`. -/
  slug : ReadableId → String → String

/-- The note that a creation inserts. -/
def Env.note (env : Env) (id : ReadableId) : Work → Option NoteRow
  | .createDecision projectId title contentHash => some
      { readableId := some id
        place := ⟨projectId, env.slug id title⟩
        contentHash := contentHash
        archived := false }
  | .createNote place contentHash archived => some
      { readableId := some id, place := place, contentHash := contentHash, archived := archived }
  | .applyPlan _ => none

def PlannedNote.row (planned : PlannedNote) : NoteRow :=
  { readableId := planned.readableId
    place := planned.place
    contentHash := planned.contentHash
    archived := false }

/-- The unique index on `readable_id` of the decisions: a second row fails,
and waits for the first one to be committed or rolled back. -/
def State.insertDecision (s : State) (i : Nat) (session : Session) (id : ReadableId)
    (next : Phase) : Option State :=
  if id ∈ s.seenDecisions session then some (s.put i (session.rollback .duplicate))
  else if (s.sessions.any fun other => decide (id ∈ other.decisions)) = true then none
  else some (s.put i { session with phase := next, decisions := session.decisions ++ [id] })

/-- The unique index on `readable_id` of the notes. -/
def State.insertNote (s : State) (i : Nat) (session : Session) (note : NoteRow) (next : Phase) :
    Option State :=
  let inserted := s.put i { session with phase := next, notes := session.notes ++ [note] }
  match note.readableId with
  | none => some inserted
  | some id =>
    if id ∈ numbered (s.seenNotes session) then some (s.put i (session.rollback .duplicate))
    else if (s.sessions.any fun other => decide (id ∈ numbered other.notes)) = true then none
    else some inserted

/-- The next statement of session `i`. -/
def Env.advance (env : Env) (s : State) (i : Nat) (session : Session) : Option State :=
  match session.phase with
  | .drawing =>
    let next := session.work.afterDraw (readableId s.seq.next)
    some
      { s.put i { session with phase := next } with
        seq := ⟨s.seq.next, true⟩
        handedOut := s.seq.next :: s.handedOut }
  | .decisionFlush id => s.insertDecision i session id (.noteFlush id)
  | .noteFlush id =>
    (env.note id session.work).bind fun note => s.insertNote i session note .committing
  | .looking [] => some (s.put i { session with phase := .decisionMax })
  | .looking (planned :: rest) =>
    if (existing (s.seenNotes session) planned).isSome || slugTaken (s.seenNotes session) planned
    then some (s.put i { session with phase := .looking rest })
    else some (s.put i { session with phase := .flushing planned rest })
  | .flushing planned rest => s.insertNote i session planned.row (.looking rest)
  | .decisionMax =>
    some (s.put i { session with phase := .vaultMax (maxNumber (s.seenDecisions session)) })
  | .vaultMax decisionMax =>
    match session.work with
    | .applyPlan plan =>
      let highest :=
        max plan.maxNumber (max decisionMax (maxNumber (numbered (s.seenNotes session))))
      some (s.put i { session with phase := .lastValue highest })
    | _ => none
  | .lastValue highest =>
    if s.seq.next ≤ highest then some (s.put i { session with phase := .setval highest })
    else some (s.put i { session with phase := .committing })
  | .setval highest =>
    some { s.put i { session with phase := .committing } with seq := ⟨highest, true⟩ }
  | .committing =>
    some
      { s.put i (session.rollback .done) with
        decisions := s.decisions ++ session.decisions
        notes := s.notes ++ session.notes }
  | .done | .duplicate | .failed => none

inductive Action where
  | begin (work : Work)
  | advance (i : Nat)
  /-- Another error rolls the session back. -/
  | abort (i : Nat)

def Env.step (env : Env) (s : State) : Action → Option State
  | .begin work => some { s with sessions := s.sessions ++ [⟨work, work.start, [], []⟩] }
  | .advance i => s.sessions[i]?.bind (env.advance s i)
  | .abort i =>
    s.sessions[i]?.bind fun session =>
      if session.phase.running then some (s.put i (session.rollback .failed)) else none

def Env.run (env : Env) : State → List Action → Option State
  | s, [] => some s
  | s, action :: actions => (env.step s action).bind fun next => env.run next actions

end StudioOS.DecisionNumbers
