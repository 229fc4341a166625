import Mathlib.Data.String.Basic
import StudioOS.Authz
import StudioOS.Library.CycleSearch

/-!
# Contract — roadmap documents and their rules

The pure rules of `studio_contracts.roadmaps`: the neutral document, its
validation, the lifecycle table, the write matrix and the derived state of a
step.
-/

namespace StudioOS.Roadmaps

open List

variable {stepKeys : List String}

def maxPhases : Nat := 30
def maxStepsPerPhase : Nat := 50
def maxSteps : Nat := 300
def maxDependenciesPerStep : Nat := 20
def maxTaskPlan : Nat := 500
def maxLinksPerStep : Nat := 50

inductive RoadmapStatus where
  | draft
  | proposed
  | active
  | completed
  | archived
deriving DecidableEq, Repr

def RoadmapStatus.value : RoadmapStatus → String
  | .draft => "draft"
  | .proposed => "proposed"
  | .active => "active"
  | .completed => "completed"
  | .archived => "archived"

inductive RoadmapOrigin where
  | manual
  | aiProposal
  | import_
deriving DecidableEq, Repr

inductive StepState where
  | notStarted
  | inProgress
  | blocked
  | done
  | skipped
deriving DecidableEq, Repr

inductive StepStateOverride where
  | done
  | skipped
deriving DecidableEq, Repr

inductive TaskStatusValue where
  | created
  | inProgress
  | blocked
  | completed
deriving DecidableEq, Repr

inductive RevisionKind where
  | proposal
  | snapshot
  | review
deriving DecidableEq, Repr

inductive RevisionStatus where
  | pending
  | approved
  | changesRequested
  | rejected
  | superseded
deriving DecidableEq, Repr

def RevisionStatus.value : RevisionStatus → String
  | .pending => "pending"
  | .approved => "approved"
  | .changesRequested => "changes_requested"
  | .rejected => "rejected"
  | .superseded => "superseded"

inductive ReviewDecision where
  | approve
  | requestChanges
  | reject
deriving DecidableEq, Repr

inductive RoadmapTransition where
  | submit
  | approve
  | requestChanges
  | reject
  | activate
  | complete
  | reopen
  | archive
deriving DecidableEq, Repr

def RoadmapTransition.value : RoadmapTransition → String
  | .submit => "submit"
  | .approve => "approve"
  | .requestChanges => "request_changes"
  | .reject => "reject"
  | .activate => "activate"
  | .complete => "complete"
  | .reopen => "reopen"
  | .archive => "archive"

/-- `ROADMAP_TRANSITIONS`. -/
def transitionTarget : RoadmapStatus → RoadmapTransition → Option RoadmapStatus
  | .draft, .submit => some .proposed
  | .draft, .activate => some .active
  | .draft, .archive => some .archived
  | .proposed, .approve => some .active
  | .proposed, .requestChanges => some .draft
  | .proposed, .reject => some .archived
  | .active, .complete => some .completed
  | .active, .archive => some .archived
  | .completed, .reopen => some .active
  | .completed, .archive => some .archived
  | _, _ => none

/-- `draft -> proposed` and `draft -> archived` are open to any writer. -/
def transitionRequiresProvision : RoadmapStatus → RoadmapTransition → Bool
  | .draft, .submit | .draft, .archive => false
  | _, _ => true

structure WriteProvenance where
  origin : RoadmapOrigin
  agentId : Option Uuid

def isAgentWrite (roleIsAgent : Bool) (provenance : WriteProvenance) : Bool :=
  roleIsAgent || provenance.agentId.isSome || provenance.origin = .aiProposal

inductive WriteKind where
  | content
  | progress
  | link
  | hydrationApply
  | proposal
deriving DecidableEq, Repr

def WriteKind.value : WriteKind → String
  | .content => "content"
  | .progress => "progress"
  | .link => "link"
  | .hydrationApply => "hydration_apply"
  | .proposal => "proposal"

/-- `ALLOWED_WRITES`. -/
def writeAllowed : RoadmapStatus → WriteKind → Bool
  | .draft, .content | .draft, .progress | .draft, .link => true
  | .active, _ => true
  | _, _ => false

inductive MetadataValue where
  | str (value : String)
  | int (value : Int)
  | float (text : String)
  | bool (value : Bool)
  | none
deriving DecidableEq, Repr

/-- Flat metadata; the server stores and returns it as it is. -/
abbrev Metadata := List (String × MetadataValue)

structure TaskPlanItem where
  hydrationKey : String
  title : String
  description : Option String
deriving DecidableEq, Repr

structure StepContent where
  key : String
  title : String
  objective : Option String
  context : Option String
  instructions : Option String
  acceptanceCriteria : List String
  notes : Option String
  metadata : Metadata
  dependsOn : List String
  tasks : List TaskPlanItem
deriving DecidableEq, Repr

structure PhaseContent where
  key : String
  title : String
  objective : Option String
  steps : List StepContent
deriving DecidableEq, Repr

/-- The neutral plan. The export stamps are informational. -/
structure RoadmapDocument where
  title : String
  objective : Option String
  context : Option String
  metadata : Metadata
  phases : List PhaseContent
  exportedAt : Option Timestamp
  revisionNo : Option Int
deriving DecidableEq, Repr

def RoadmapDocument.steps (document : RoadmapDocument) : List StepContent :=
  document.phases.flatMap (·.steps)

inductive RoadmapValidationReason where
  | duplicatePhaseKey
  | duplicateStepKey
  | duplicateHydrationKey
  | unknownDependency
  | selfDependency
  | dependencyCycle
  | duplicateDependency
  | limitExceeded
  | invalidReorder
deriving DecidableEq, Repr

def RoadmapValidationReason.value : RoadmapValidationReason → String
  | .duplicatePhaseKey => "duplicate_phase_key"
  | .duplicateStepKey => "duplicate_step_key"
  | .duplicateHydrationKey => "duplicate_hydration_key"
  | .unknownDependency => "unknown_dependency"
  | .selfDependency => "self_dependency"
  | .dependencyCycle => "dependency_cycle"
  | .duplicateDependency => "duplicate_dependency"
  | .limitExceeded => "limit_exceeded"
  | .invalidReorder => "invalid_reorder"

structure DocumentError where
  reason : RoadmapValidationReason
  field : String
deriving DecidableEq, Repr

/-- `find_dependency_cycle`: `edges` lists the steps each step depends on. -/
def findDependencyCycle (edges : List (String × List String)) : Option (List String) :=
  CycleSearch.findCycle edges

/-- The loop over the steps of a phase; returns the step keys seen. -/
def checkStepKeys (seen : List String) : List StepContent → Except DocumentError (List String)
  | [] => .ok seen
  | step :: steps =>
    if step.key ∈ seen then .error ⟨.duplicateStepKey, s!"steps.{step.key}"⟩
    else if ¬ (step.tasks.map (·.hydrationKey)).Nodup then
      .error ⟨.duplicateHydrationKey, s!"steps.{step.key}.tasks"⟩
    else checkStepKeys (step.key :: seen) steps

def checkPhaseKeys (phaseKeys stepKeys : List String) :
    List PhaseContent → Except DocumentError (List String)
  | [] => .ok stepKeys
  | phase :: phases =>
    if phase.key ∈ phaseKeys then .error ⟨.duplicatePhaseKey, s!"phases.{phase.key}"⟩
    else do
      let stepKeys ← checkStepKeys stepKeys phase.steps
      checkPhaseKeys (phase.key :: phaseKeys) stepKeys phases

/-- The first dependency that is the step itself or no step. -/
def checkTargets (stepKeys : List String) (key : String) : List String → Except DocumentError Unit
  | [] => .ok ()
  | dependency :: dependencies =>
    if dependency = key then .error ⟨.selfDependency, s!"steps.{key}.depends_on"⟩
    else if dependency ∉ stepKeys then .error ⟨.unknownDependency, s!"steps.{key}.depends_on"⟩
    else checkTargets stepKeys key dependencies

def checkDependencies (stepKeys : List String) : List StepContent → Except DocumentError Unit
  | [] => .ok ()
  | step :: steps =>
    if ¬ step.dependsOn.Nodup then
      .error ⟨.duplicateDependency, s!"steps.{step.key}.depends_on"⟩
    else do
      checkTargets stepKeys step.key step.dependsOn
      checkDependencies stepKeys steps

def checkDocument (document : RoadmapDocument) : Except DocumentError Unit := do
  let stepKeys ← checkPhaseKeys [] [] document.phases
  if document.steps.length > maxSteps ∨
      (document.steps.map fun step => step.tasks.length).sum > maxTaskPlan then
    .error ⟨.limitExceeded, "steps"⟩
  else
    checkDependencies stepKeys document.steps
    if (findDependencyCycle (document.steps.map fun step => (step.key, step.dependsOn))).isSome then
      .error ⟨.dependencyCycle, "steps"⟩
    else .ok ()

/-- `roadmap_document_errors`: the first failure, none for a valid
document. -/
def roadmapDocumentErrors (document : RoadmapDocument) : List DocumentError :=
  match checkDocument document with
  | .ok _ => []
  | .error error => [error]

/-! ## What a document without errors is -/

/-- `a` depends on `b` in some edges by key. -/
def DependsOn (steps : List StepContent) (b a : String) : Prop :=
  ∃ step ∈ steps, step.key = a ∧ b ∈ step.dependsOn

structure RoadmapDocument.Valid (document : RoadmapDocument) : Prop where
  phaseKeys : (document.phases.map (·.key)).Nodup
  stepKeys : (document.steps.map (·.key)).Nodup
  hydrationKeys : ∀ step ∈ document.steps, (step.tasks.map (·.hydrationKey)).Nodup
  dependencies : ∀ step ∈ document.steps, step.dependsOn.Nodup
  noSelf : ∀ step ∈ document.steps, step.key ∉ step.dependsOn
  known : ∀ step ∈ document.steps, ∀ b ∈ step.dependsOn, b ∈ document.steps.map (·.key)
  acyclic : WellFounded (DependsOn document.steps)

theorem checkStepKeys_ok {seen seen' steps} (h : checkStepKeys seen steps = .ok seen') :
    seen' = (steps.map (·.key)).reverse ++ seen ∧ (steps.map (·.key)).Nodup ∧
      (∀ step ∈ steps, step.key ∉ seen) ∧
      ∀ step ∈ steps, (step.tasks.map (·.hydrationKey)).Nodup := by
  induction steps generalizing seen with
  | nil =>
    cases h
    simp
  | cons step steps ih =>
    unfold checkStepKeys at h
    split at h
    · cases h
    rename_i hfresh
    split at h
    · cases h
    rename_i hplan
    obtain ⟨rfl, hnodup, hnew, hplans⟩ := ih h
    refine ⟨by simp, ?_, ?_, ?_⟩
    · rw [map_cons, nodup_cons]
      refine ⟨?_, hnodup⟩
      intro hmem
      obtain ⟨other, hother, hkey⟩ := mem_map.mp hmem
      exact hnew other hother (by simp [hkey])
    · intro other hother
      rcases mem_cons.mp hother with rfl | hother
      · exact hfresh
      · exact fun hseen => hnew other hother (.tail _ hseen)
    · intro other hother
      rcases mem_cons.mp hother with rfl | hother
      · exact not_not.mp hplan
      · exact hplans other hother

theorem checkPhaseKeys_ok {phaseKeys seen phases}
    (h : checkPhaseKeys phaseKeys stepKeys phases = .ok seen) :
    seen = ((phases.flatMap (·.steps)).map (·.key)).reverse ++ stepKeys ∧
      (phases.map (·.key)).Nodup ∧ (∀ phase ∈ phases, phase.key ∉ phaseKeys) ∧
      ((phases.flatMap (·.steps)).map (·.key)).Nodup ∧
      (∀ step ∈ phases.flatMap (·.steps), step.key ∉ stepKeys) ∧
      ∀ step ∈ phases.flatMap (·.steps), (step.tasks.map (·.hydrationKey)).Nodup := by
  induction phases generalizing phaseKeys stepKeys with
  | nil =>
    cases h
    simp
  | cons phase phases ih =>
    unfold checkPhaseKeys at h
    split at h
    · cases h
    rename_i hfresh
    obtain ⟨between, hsteps, h⟩ := bind_ok h
    obtain ⟨rfl, hnodup, hnew, hplans⟩ := checkStepKeys_ok hsteps
    obtain ⟨rfl, hphases, hphaseNew, hstepKeys, hstepNew, hplans'⟩ := ih h
    refine ⟨by simp, ?_, ?_, ?_, ?_, ?_⟩
    · rw [map_cons, nodup_cons]
      refine ⟨?_, hphases⟩
      intro hmem
      obtain ⟨other, hother, hkey⟩ := mem_map.mp hmem
      exact hphaseNew other hother (by simp [hkey])
    · intro other hother
      rcases mem_cons.mp hother with rfl | hother
      · exact hfresh
      · exact fun hseen => hphaseNew other hother (.tail _ hseen)
    · rw [flatMap_cons, map_append, nodup_append]
      refine ⟨hnodup, hstepKeys, ?_⟩
      rintro key hkey other hother rfl
      obtain ⟨step, hstep, rfl⟩ := mem_map.mp hother
      exact hstepNew step hstep (by simp [mem_map.mp hkey])
    · intro step hstep
      rw [flatMap_cons] at hstep
      rcases mem_append.mp hstep with hstep | hstep
      · exact hnew step hstep
      · exact fun hseen => hstepNew step hstep (mem_append_right _ hseen)
    · intro step hstep
      rw [flatMap_cons] at hstep
      rcases mem_append.mp hstep with hstep | hstep
      · exact hplans step hstep
      · exact hplans' step hstep

theorem checkTargets_ok {key dependencies} (h : checkTargets stepKeys key dependencies = .ok ()) :
    key ∉ dependencies ∧ ∀ b ∈ dependencies, b ∈ stepKeys := by
  induction dependencies with
  | nil => simp
  | cons dependency dependencies ih =>
    unfold checkTargets at h
    split at h
    · cases h
    rename_i hself
    split at h
    · cases h
    rename_i hknown
    obtain ⟨hrest, hall⟩ := ih h
    constructor
    · intro hmem
      rcases mem_cons.mp hmem with heq | hmem
      · exact hself heq.symm
      · exact hrest hmem
    · intro b hb
      rcases mem_cons.mp hb with rfl | hb
      · exact not_not.mp hknown
      · exact hall b hb

theorem checkDependencies_ok {steps} (h : checkDependencies stepKeys steps = .ok ()) :
    ∀ step ∈ steps, step.dependsOn.Nodup ∧ step.key ∉ step.dependsOn ∧
      ∀ b ∈ step.dependsOn, b ∈ stepKeys := by
  induction steps with
  | nil => simp
  | cons step steps ih =>
    unfold checkDependencies at h
    split at h
    · cases h
    rename_i hnodup
    obtain ⟨_, htargets, h⟩ := bind_ok h
    intro other hother
    rcases mem_cons.mp hother with rfl | hother
    · exact ⟨not_not.mp hnodup, checkTargets_ok htargets⟩
    · exact ih h other hother

/-- **A document without errors is valid.** -/
theorem valid_of_no_errors {document}
    (h : roadmapDocumentErrors document = []) : document.Valid := by
  unfold roadmapDocumentErrors at h
  split at h
  · rename_i hcheck
    obtain ⟨stepKeys, hkeys, hcheck⟩ := bind_ok hcheck
    obtain ⟨rfl, hphases, -, hsteps, -, hplans⟩ := checkPhaseKeys_ok hkeys
    split at hcheck
    · cases hcheck
    obtain ⟨_, hdeps, hcheck⟩ := bind_ok hcheck
    have hdeps := checkDependencies_ok hdeps
    split at hcheck
    · cases hcheck
    rename_i hcycle
    have hknown : ∀ step ∈ document.steps, ∀ b ∈ step.dependsOn,
        b ∈ document.steps.map (·.key) := by
      intro step hstep b hb
      have := (hdeps step hstep).2.2 b hb
      simpa [RoadmapDocument.steps] using this
    refine ⟨hphases, hsteps, hplans, fun step hstep => (hdeps step hstep).1,
      fun step hstep => (hdeps step hstep).2.1, hknown, ?_⟩
    have hwf := CycleSearch.findCycle_none (by simpa [findDependencyCycle] using hcycle)
    apply Subrelation.wf _ hwf
    rintro b a ⟨step, hstep, rfl, hb⟩
    have hnodes : CycleSearch.Graph.nodes (document.steps.map fun step =>
        (step.key, step.dependsOn)) = document.steps.map (·.key) := by
      rw [CycleSearch.Graph.nodes, map_map]
      rfl
    have hentry := mem_map_of_mem (f := fun step : StepContent => (step.key, step.dependsOn))
      hstep
    refine CycleSearch.Graph.edge_of_mem (by rw [hnodes]; exact hsteps) hentry hb ?_
    rw [hnodes]
    exact hknown step hstep b hb
  · cases h

def deriveStepState (override : Option StepStateOverride) (statuses : List TaskStatusValue) :
    StepState :=
  match override with
  | some .skipped => .skipped
  | some .done => .done
  | none =>
    if statuses ≠ [] ∧ statuses.all (· = .completed) then .done
    else if statuses.any (· = .blocked) then .blocked
    else if statuses.any (· = .inProgress) then .inProgress
    else .notStarted

end StudioOS.Roadmaps
