import StudioOS.Library.Placed
import StudioOS.Roadmaps.Reconcile

/-!
# Plan — what a sound plan is

The phases, steps, dependencies and links of a roadmap, what holds of
them after every request, and what the plan tree reads from a plan that is
sound.
-/

namespace StudioOS.Roadmaps

open List Rows

structure PhasesSound (phases : List PhaseRow) (nextId : RowId) : Prop where
  ids : (phases.map (·.id)).Nodup
  keys : (phases.map (·.key)).Nodup
  positions : Placed (·.position) phases
  fresh : ∀ phase ∈ phases, phase.id < nextId

structure StepsSound (phases : List PhaseRow) (steps : List StepRow) (nextId : RowId) : Prop where
  ids : (steps.map (·.id)).Nodup
  keys : (steps.map (·.key)).Nodup
  parents : ∀ step ∈ steps, step.phaseId ∈ phases.map (·.id)
  positions : ∀ phaseId, Placed (·.position) (steps.filter (·.phaseId = phaseId))
  criteria : ∀ step ∈ steps, ∀ index ∈ step.criteriaChecked,
    index < step.acceptanceCriteria.length
  plans : ∀ step ∈ steps, (step.taskPlan.map (·.hydrationKey)).Nodup
  fresh : ∀ step ∈ steps, step.id < nextId

/-- A step waits for another: the order of a plan. -/
def WaitsFor (deps : List DependencyRow) (target step : RowId) : Prop :=
  (⟨step, target⟩ : DependencyRow) ∈ deps

structure GraphSound (steps : List StepRow) (deps : List DependencyRow) : Prop where
  edges : deps.Nodup
  inside : ∀ dep ∈ deps,
    dep.stepId ∈ steps.map (·.id) ∧ dep.dependsOnId ∈ steps.map (·.id)
  acyclic : WellFounded (WaitsFor deps)

/-- Two links of one step do not share a hydration key. -/
def LinkRow.Apart (a b : LinkRow) : Prop :=
  a.stepId = b.stepId → a.hydrationKey = b.hydrationKey → a.hydrationKey = none

structure LinksSound (steps : List StepRow) (links : List LinkRow) : Prop where
  inside : ∀ link ∈ links, link.stepId ∈ steps.map (·.id)
  apart : links.Pairwise LinkRow.Apart

/-- The rows of a roadmap other than its own and its revisions. -/
structure Plan where
  phases : List PhaseRow
  steps : List StepRow
  deps : List DependencyRow
  links : List LinkRow

def Roadmap.plan (roadmap : Roadmap) : Plan :=
  { phases := roadmap.phases, steps := roadmap.steps, deps := roadmap.deps,
    links := roadmap.links }

structure Plan.Sound (plan : Plan) (nextId : RowId) : Prop where
  phases : PhasesSound plan.phases nextId
  steps : StepsSound plan.phases plan.steps nextId
  graph : GraphSound plan.steps plan.deps
  links : LinksSound plan.steps plan.links

def Session.Sound (session : Session) : Prop :=
  session.roadmap.plan.Sound session.nextId

/-- The fields of a roadmap no plan operation writes by itself. -/
structure Roadmap.SameLedger (roadmap roadmap' : Roadmap) : Prop where
  id : roadmap'.id = roadmap.id
  projectId : roadmap'.projectId = roadmap.projectId
  status : roadmap'.status = roadmap.status
  revisionNo : roadmap'.revisionNo = roadmap.revisionNo
  approvedRevisionNo : roadmap'.approvedRevisionNo = roadmap.approvedRevisionNo
  revisions : roadmap'.revisions = roadmap.revisions

structure Roadmap.SameHeader (roadmap roadmap' : Roadmap) : Prop where
  title : roadmap'.title = roadmap.title
  objective : roadmap'.objective = roadmap.objective
  context : roadmap'.context = roadmap.context
  metadata : roadmap'.metadata = roadmap.metadata

/-- A step without its progress. -/
def StepRow.authored (row : StepRow) : StepRow :=
  { row with
    criteriaChecked := [], notes := none, stateOverride := none, stateOverrideReason := none
    version := 0 }

/-- What content edits write: the header, the phases, the steps without
their progress and the dependencies. -/
structure Tree where
  title : String
  objective : Option String
  context : Option String
  metadata : Metadata
  phases : List PhaseRow
  steps : List StepRow
  deps : List DependencyRow
deriving DecidableEq

def Roadmap.tree (roadmap : Roadmap) : Tree :=
  { title := roadmap.title, objective := roadmap.objective, context := roadmap.context
    metadata := roadmap.metadata, phases := roadmap.phases
    steps := roadmap.steps.map (·.authored), deps := roadmap.deps }

section Tree

variable {roadmap : Roadmap}

theorem phasesInOrder_perm (roadmap : Roadmap) : roadmap.phasesInOrder.Perm roadmap.phases :=
  perm_insertionSort _ _

theorem stepsInOrder_perm (roadmap : Roadmap) : roadmap.stepsInOrder.Perm roadmap.steps :=
  perm_insertionSort _ _

theorem stepsOf_perm (roadmap : Roadmap) (phaseId) :
    (roadmap.stepsOf phaseId).Perm (roadmap.steps.filter (·.phaseId = phaseId)) :=
  (stepsInOrder_perm roadmap).filter _

variable {step : StepRow} {key : String} {phase : PhaseRow}

theorem mem_stepsOf {phaseId} :
    step ∈ roadmap.stepsOf phaseId ↔ step ∈ roadmap.steps ∧ step.phaseId = phaseId := by
  rw [(stepsOf_perm roadmap phaseId).mem_iff, mem_filter]
  simp

theorem phaseByKey_some
    (h : roadmap.phaseByKey key = some phase) : phase ∈ roadmap.phases ∧ phase.key = key := by
  refine ⟨(phasesInOrder_perm roadmap).mem_iff.mp (List.mem_of_find?_eq_some h), ?_⟩
  simpa using List.find?_some h

theorem phaseByKey_none (h : roadmap.phaseByKey key = none) : key ∉ roadmap.phases.map (·.key) := by
  intro hmem
  obtain ⟨phase, hphase, hkey⟩ := mem_map.mp hmem
  have := List.find?_eq_none.mp h phase ((phasesInOrder_perm roadmap).mem_iff.mpr hphase)
  simp [hkey] at this

theorem phaseByKey_of_mem (hkeys : (roadmap.phases.map (·.key)).Nodup)
    (h : phase ∈ roadmap.phases) : roadmap.phaseByKey phase.key = some phase :=
  Keyed.find?_of_mem _ (((phasesInOrder_perm roadmap).map _).nodup_iff.mpr hkeys)
    ((phasesInOrder_perm roadmap).mem_iff.mpr h)

theorem stepByKey_some (h : roadmap.stepByKey key = some step) :
    step ∈ roadmap.steps ∧ step.key = key := by
  refine ⟨(stepsInOrder_perm roadmap).mem_iff.mp (List.mem_of_find?_eq_some h), ?_⟩
  simpa using List.find?_some h

theorem stepByKey_none (h : roadmap.stepByKey key = none) : key ∉ roadmap.steps.map (·.key) := by
  intro hmem
  obtain ⟨step, hstep, hkey⟩ := mem_map.mp hmem
  have := List.find?_eq_none.mp h step ((stepsInOrder_perm roadmap).mem_iff.mpr hstep)
  simp [hkey] at this

theorem keyOf_of_mem (hids : (roadmap.steps.map (·.id)).Nodup)
    (h : step ∈ roadmap.steps) : roadmap.keyOf step.id = step.key := by
  have hfind := Keyed.find?_of_mem (fun row : StepRow => row.id)
    (((stepsInOrder_perm roadmap).map _).nodup_iff.mpr hids)
    ((stepsInOrder_perm roadmap).mem_iff.mpr h)
  show ((roadmap.stepsInOrder.find? (·.id = step.id)).map (·.key)).getD "" = step.key
  rw [hfind]
  rfl

theorem mem_targetsOf {stepId target} :
    target ∈ roadmap.targetsOf stepId ↔ WaitsFor roadmap.deps target stepId := by
  show target ∈ (roadmap.deps.filter (·.stepId = stepId)).map (·.dependsOnId) ↔ _
  rw [mem_map]
  constructor
  · rintro ⟨dep, hdep, rfl⟩
    obtain ⟨hmem, hid⟩ := mem_filter.mp hdep
    obtain rfl : dep.stepId = stepId := by simpa using hid
    exact hmem
  · intro h
    exact ⟨⟨stepId, target⟩, mem_filter.mpr ⟨h, by simp⟩, rfl⟩

theorem mem_dependsOnKeys (hids : (roadmap.steps.map (·.id)).Nodup)
    (hgraph : GraphSound roadmap.steps roadmap.deps) : key ∈ roadmap.dependsOnKeys step ↔
      ∃ target ∈ roadmap.steps, WaitsFor roadmap.deps target.id step.id ∧ target.key = key := by
  unfold Roadmap.dependsOnKeys
  rw [mem_map]
  constructor
  · rintro ⟨targetId, hmem, rfl⟩
    have hwaits := mem_targetsOf.mp ((perm_insertionSort _ _).mem_iff.mp hmem)
    obtain ⟨target, htarget, rfl⟩ := mem_map.mp (hgraph.inside _ hwaits).2
    exact ⟨target, htarget, hwaits, (keyOf_of_mem hids htarget).symm⟩
  · rintro ⟨target, htarget, hwaits, rfl⟩
    refine ⟨target.id, ?_, keyOf_of_mem hids htarget⟩
    exact (perm_insertionSort _ _).mem_iff.mpr (mem_targetsOf.mpr hwaits)

end Tree

end StudioOS.Roadmaps
