import StudioOS.Library.Runs
import StudioOS.Roadmaps.Hydration

/-!
# System — roadmaps under any sequence of requests

Every mutation of a roadmap locks its row first (`lock_roadmap`), so the
committed requests on one roadmap follow each other; a request that is
refused rolls back. A run is the sequence of the requests that committed.
-/

namespace StudioOS.Roadmaps

open Runs

/-- A mutation of one roadmap. -/
inductive Request where
  | createPhase (payload : PhaseCreate)
  | updatePhase (key : String) (payload : PhaseUpdate) (expectedVersion : Int)
  | reorderPhases (payload : Reorder)
  | deletePhase (key : String) (expectedRoadmapVersion : Int)
  | createStep (phaseKey : String) (payload : StepCreate)
  | updateStep (key : String) (payload : StepUpdate) (expectedVersion : Int)
  | reorderSteps (phaseKey : String) (payload : Reorder)
  | deleteStep (key : String) (expectedRoadmapVersion : Int)
  | updateStepProgress (key : String) (payload : StepProgressUpdate) (expectedVersion : Int)
  | addDependency (payload : DependencyChange)
  | removeDependency (payload : DependencyChange)
  | linkTask (key : String) (taskId : RowId)
  | unlinkTask (key : String) (taskId : RowId)
  | updateRoadmap (payload : RoadmapUpdate) (expectedVersion : Int)
  | transitionRoadmap (payload : TransitionRequest)
  | createProposal (payload : ProposalCreate)
  | reviewProposal (revisionNo : Int) (payload : ProposalReview)

/-- The requests guarded as `content`, a new document apart. -/
def Request.editsContent : Request → Bool
  | .createPhase _ | .updatePhase .. | .reorderPhases _ | .deletePhase .. | .createStep ..
  | .updateStep .. | .reorderSteps .. | .deleteStep .. | .addDependency _ | .removeDependency _
  | .updateRoadmap .. => true
  | .updateStepProgress .. | .linkTask .. | .unlinkTask .. | .transitionRoadmap _
  | .createProposal _ | .reviewProposal .. => false

/-- The service behind a request. -/
def runRequest (otherActive : Bool) (tasks : List TaskRow) (session : Session) (writer : Writer) :
    Request → Except HttpError Session
  | .createPhase payload => createPhase session writer payload
  | .updatePhase key payload version => updatePhase session writer key payload version
  | .reorderPhases payload => reorderPhases session writer payload
  | .deletePhase key version => deletePhase session writer key version
  | .createStep phaseKey payload => createStep session writer phaseKey payload
  | .updateStep key payload version => updateStep session writer key payload version
  | .reorderSteps phaseKey payload => reorderSteps session writer phaseKey payload
  | .deleteStep key version => deleteStep session writer key version
  | .updateStepProgress key payload version =>
    updateStepProgress session writer key payload version
  | .addDependency payload => addDependency session writer payload
  | .removeDependency payload => removeDependency session writer payload
  | .linkTask key taskId => linkTask session writer key (tasks.find? (·.id = taskId))
  | .unlinkTask key taskId => unlinkTask session writer key taskId
  | .updateRoadmap payload version => updateRoadmap session writer payload version
  | .transitionRoadmap payload => transitionRoadmap otherActive session writer payload
  | .createProposal payload => createProposal session writer payload
  | .reviewProposal revisionNo payload => reviewProposal session writer revisionNo payload

/-- The committed rows. -/
structure Db where
  projects : List Uuid
  roadmaps : List Roadmap
  tasks : List TaskRow
  nextId : RowId

inductive Act where
  | createRoadmap (payload : RoadmapCreate)
  | importRoadmap (payload : RoadmapImport)
  | request (roadmapId : RowId) (request : Request)
  | applyHydration (roadmapId : RowId) (payload : HydrationApplyRequest)
  /-- A task created elsewhere. -/
  | taskCreated (projectId : Uuid) (title : String) (description : Option String)
  /-- A task changed elsewhere. -/
  | taskChanged (taskId : RowId) (title : String) (description : Option String)
      (status : TaskStatusValue)

/-- A request of its own, not a document, that edits the content of a roadmap. -/
def Act.editsContent (roadmapId : RowId) : Act → Bool
  | .request id edit => id = roadmapId && edit.editsContent
  | _ => false

/-- What `_ensure_no_other_active` and the partial unique index see. -/
def Db.otherActive (db : Db) (roadmap : Roadmap) : Bool :=
  db.roadmaps.any fun other =>
    other.projectId = roadmap.projectId && other.status = .active && other.id ≠ roadmap.id

def Db.find (db : Db) (roadmapId : RowId) : Except HttpError Roadmap :=
  match db.roadmaps.find? (·.id = roadmapId) with
  | some roadmap => .ok roadmap
  | none => .error notFound

/-- The commit of a new roadmap. -/
def Db.add (db : Db) (session : Session) : Db :=
  { db with roadmaps := db.roadmaps ++ [session.roadmap], nextId := session.nextId }

/-- The commit of a request on a roadmap. -/
def Db.put (db : Db) (session : Session) : Db :=
  { db with
    roadmaps := db.roadmaps.map fun roadmap =>
      if roadmap.id = session.roadmap.id then session.roadmap else roadmap
    nextId := session.nextId }

def Db.perform (db : Db) (writer : Writer) : Act → Except HttpError Db
  | .createRoadmap payload => do
    let session ← createRoadmap db.nextId db.projects writer payload
    .ok (db.add session)
  | .importRoadmap payload => do
    let session ← importRoadmap db.nextId db.projects writer payload
    .ok (db.add session)
  | .request roadmapId request => do
    let roadmap ← db.find roadmapId
    let session ← runRequest (db.otherActive roadmap) db.tasks ⟨roadmap, db.nextId⟩ writer request
    .ok (db.put session)
  | .applyHydration roadmapId payload => do
    let roadmap ← db.find roadmapId
    let applied ← applyHydration ⟨roadmap, db.nextId⟩ db.tasks writer payload
    .ok { db.put applied.1 with tasks := applied.2.1 }
  | .taskCreated projectId title description => do
    let task ← addTask writer.principal projectId db.nextId title description
    .ok { db with tasks := db.tasks ++ [task], nextId := db.nextId + 1 }
  | .taskChanged taskId title description status =>
    .ok { db with tasks := db.tasks.map fun task =>
      if task.id = taskId then
        { task with title := title, description := description, status := status }
      else task }

/-- A request that commits. -/
def Db.step (db : Db) (call : Writer × Act) : Option Db :=
  (db.perform call.1 call.2).toOption

/-- Before the first roadmap. -/
def Db.start (projects : List Uuid) : Db :=
  { projects := projects, roadmaps := [], tasks := [], nextId := 0 }

/-- What some requests, committed one after the other, have made. -/
def Reachable (db : Db) : Prop :=
  ∃ projects calls, Run Db.step Free (Db.start projects) calls db

end StudioOS.Roadmaps
