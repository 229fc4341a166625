import StudioOS.Admission.Batch
import StudioOS.Launch.StateMachine

/-!
# AllOrNothing — a batch is admitted whole or not at all

`stage_launch` adds a launch and its event, or neither; the loop of
`admit_batch` keeps count of what it has staged; only a batch without a
refusal is committed.
-/

namespace StudioOS.Admission

open List Authz Budgets Launches

variable {env : Env} {principal : Principal} {projectId : Uuid}

variable {done : List AdmissionBatchItem} {loop loop' : Loop} {roadmapId : Uuid}
  {tree : RoadmapTree}

/-- The tables before and after differ in the reservations only. -/
def SameBut (db db' : Db) : Prop := ∃ reservations, db' = { db with reservations := reservations }

theorem decideAdmission_same (db projectId) (now) :
    SameBut db (decideAdmission db projectId now).1 := by
  unfold decideAdmission
  split
  · exact ⟨db.reservations, rfl⟩
  · simp only []
    split <;> exact ⟨_, rfl⟩

structure Stages (env : Env) (principal : Principal) (projectId : Uuid)
    (body : AdmissionBatchRequest) (item : AdmissionBatchItem) (staged : LaunchRow × EventRow) :
    Prop where
  launch : ∃ now, staged.1.launch =
    Launches.stageLaunch projectId (userId principal)
      (launchCreate body item) 1 none none now env.began
  event : ∃ eventId now, staged.2 = launchEvent principal staged.1 eventId now

theorem stageEvent_new {db event} (h : ∀ e ∈ db.events, e.eventId ≠ event.eventId) :
    stageEvent db event = ({ db with events := db.events ++ [event] }, event) := by
  have hnone : db.events.find? (·.eventId = event.eventId) = none := by
    rw [List.find?_eq_none]
    intro e he
    simpa using h e he
  unfold stageEvent
  rw [hnone]

theorem stageLaunch_ok {i body item db db' staged}
    (hnew : ∀ e ∈ db.events, e.eventId ≠ env.eventId i)
    (h : stageLaunch env principal projectId i (launchCreate body item) db = (db', .ok staged)) :
    Stages env principal projectId body item staged ∧ staged.2.eventId = env.eventId i ∧
      db'.launches = db.launches ++ [staged.1] ∧ db'.events = db.events ++ [staged.2] := by
  obtain ⟨reservations, hsame⟩ := decideAdmission_same db projectId (env.now i)
  unfold stageLaunch at h
  simp only [] at h
  split at h
  · cases h
  rename_i mid admission hdecide
  rw [hdecide] at hsame
  subst hsame
  split at h
  · cases h
  rename_i pin _
  split at h
  · cases h
  · rw [stageEvent_new hnew] at h
    cases h
    exact ⟨⟨⟨_, rfl⟩, ⟨_, _, rfl⟩⟩, rfl, rfl, rfl⟩

theorem stageLaunch_error {i launchIn db db' error}
    (h : stageLaunch env principal projectId i launchIn db = (db', .error error)) :
    db'.launches = db.launches ∧ db'.events = db.events := by
  obtain ⟨reservations, hsame⟩ := decideAdmission_same db projectId (env.now i)
  unfold stageLaunch at h
  simp only [] at h
  split at h
  · rename_i mid _ hdecide
    rw [hdecide] at hsame
    subst hsame
    cases h
    exact ⟨rfl, rfl⟩
  · rename_i mid admission hdecide
    rw [hdecide] at hsame
    subst hsame
    split at h
    · cases h
      exact ⟨rfl, rfl⟩
    · split at h
      · cases h
        exact ⟨rfl, rfl⟩
      · cases h

/-! ## The loop -/

variable {db : Db} {plan : AdmissionDryRun} {body : AdmissionBatchRequest}

/-- A task that `compose_dry_run` lists, on a machine it lists for it. -/
def Launchable (plan : AdmissionDryRun) (item : AdmissionBatchItem) : Prop :=
  ∃ candidate ∈ plan.launchable, candidate.taskId = item.taskId ∧
    item.machineId ∈ candidate.machineIds

/-- The items so far are all staged. -/
structure Full (env : Env) (principal : Principal) (projectId : Uuid) (plan : AdmissionDryRun)
    (body : AdmissionBatchRequest) (done : List AdmissionBatchItem) (loop : Loop) : Prop where
  staged : List.Forall₂ (Stages env principal projectId body) done loop.staged
  distinct : (done.map (·.taskId)).Nodup
  launchable : ∀ item ∈ done, Launchable plan item
  slots : ∀ machineId,
    plan.freeSlots machineId = loop.freeSlots machineId + done.countP (·.machineId = machineId)

/-- What the loop keeps: the new rows are the staged ones, and without a
refusal they are those of the items so far. -/
structure Progress (env : Env) (db : Db) (principal : Principal) (projectId : Uuid)
    (plan : AdmissionDryRun) (body : AdmissionBatchRequest) (done : List AdmissionBatchItem)
    (loop : Loop) : Prop where
  seen : ∀ taskId, taskId ∈ loop.seen ↔ taskId ∈ done.map (·.taskId)
  launches : loop.working.launches = db.launches ++ loop.staged.map (·.1)
  events : loop.working.events = db.events ++ loop.staged.map (·.2)
  eventIds : ∀ staged ∈ loop.staged, ∃ j < done.length, staged.2.eventId = env.eventId j
  full : loop.refusals = [] → Full env principal projectId plan body done loop

theorem candidate_mem {taskId candidate} (h : plan.candidate taskId = some candidate) :
    candidate ∈ plan.launchable ∧ candidate.taskId = taskId := by
  refine ⟨mem_reverse.mp (List.mem_of_find?_eq_some h), ?_⟩
  simpa using List.find?_some h

theorem Progress.refuse (h : Progress env db principal projectId plan body done loop) (item)
    (hseen : ∀ taskId, taskId ∈ loop'.seen ↔ taskId = item.taskId ∨ taskId ∈ loop.seen)
    (hlaunches : loop'.working.launches = loop.working.launches)
    (hevents : loop'.working.events = loop.working.events) (hstaged : loop'.staged = loop.staged)
    (hrefused : loop'.refusals ≠ []) :
    Progress env db principal projectId plan body (done ++ [item]) loop' := by
  refine ⟨?_, ?_, ?_, ?_, fun hnone => absurd hnone hrefused⟩
  · intro taskId
    rw [hseen, h.seen, map_append, mem_append, map_singleton, mem_singleton]
    exact Or.comm
  · rw [hlaunches, hstaged]
    exact h.launches
  · rw [hevents, hstaged]
    exact h.events
  intro staged hmem
  rw [hstaged] at hmem
  obtain ⟨j, hj, heq⟩ := h.eventIds staged hmem
  refine ⟨j, ?_, heq⟩
  rw [length_append]
  exact hj.trans (Nat.lt_succ_self _)

theorem Progress.stage {working staged}
    (h : Progress env db principal projectId plan body done loop) (item)
    (hnew : item.taskId ∉ loop.seen) (hlaunchable : Launchable plan item)
    (hfree : loop.freeSlots item.machineId ≠ 0)
    (hstages : Stages env principal projectId body item staged)
    (hid : staged.2.eventId = env.eventId done.length)
    (hlaunches : working.launches = loop.working.launches ++ [staged.1])
    (hevents : working.events = loop.working.events ++ [staged.2]) :
    Progress env db principal projectId plan body (done ++ [item])
      { working := working
        freeSlots := Function.update loop.freeSlots item.machineId (loop.freeSlots item.machineId - 1)
        refusals := loop.refusals
        staged := loop.staged ++ [staged]
        seen := item.taskId :: loop.seen } := by
  refine ⟨?_, ?_, ?_, ?_, ?_⟩
  · intro taskId
    rw [mem_cons, h.seen, map_append, mem_append, map_singleton, mem_singleton]
    exact Or.comm
  · rw [hlaunches, h.launches, append_assoc]
    simp
  · rw [hevents, h.events, append_assoc]
    simp
  · intro other hother
    rw [length_append]
    rcases mem_append.mp hother with hother | hother
    · obtain ⟨j, hj, heq⟩ := h.eventIds other hother
      exact ⟨j, hj.trans (Nat.lt_succ_self _), heq⟩
    · rw [mem_singleton.mp hother]
      exact ⟨done.length, Nat.lt_succ_self _, hid⟩
  intro hnone
  have hfull := h.full hnone
  refine ⟨rel_append hfull.staged (.cons hstages .nil), ?_, ?_, ?_⟩
  · rw [map_append, map_singleton]
    rw [h.seen] at hnew
    refine nodup_append.mpr ⟨hfull.distinct, nodup_singleton _, ?_⟩
    intro a ha b hb heq
    rw [heq, mem_singleton.mp hb] at ha
    exact hnew ha
  · intro other hother
    rcases mem_append.mp hother with hother | hother
    · exact hfull.launchable other hother
    · rw [mem_singleton.mp hother]
      exact hlaunchable
  · intro machineId
    rw [countP_append, hfull.slots machineId]
    by_cases hsame : machineId = item.machineId
    · subst hsame
      simp only [Function.update_self, countP_singleton, decide_true, if_true]
      omega
    · simp only [Function.update_of_ne hsame, countP_singleton, Ne.symm hsame, decide_false,
        Bool.false_eq_true, if_false]
      omega

/-- The ids that `uuid4` draws for the events of a call are new. -/
structure Fresh (env : Env) (db : Db) : Prop where
  stored : ∀ i, ∀ e ∈ db.events, e.eventId ≠ env.eventId i
  drawn : Function.Injective env.eventId

theorem Progress.fresh
    (h : Progress env db principal projectId plan body done loop) (hfresh : Fresh env db) :
    ∀ e ∈ loop.working.events, e.eventId ≠ env.eventId done.length := by
  intro e he
  rw [h.events] at he
  rcases mem_append.mp he with he | he
  · exact hfresh.stored _ e he
  · obtain ⟨staged, hstaged, rfl⟩ := mem_map.mp he
    obtain ⟨j, hj, heq⟩ := h.eventIds staged hstaged
    rw [heq]
    exact fun hsame => hj.ne (hfresh.drawn hsame)

theorem refusals_refuse (loop : Loop) (item reason reasons budget) :
    (loop.refuse item reason reasons budget).refusals ≠ [] :=
  append_ne_nil_of_right_ne_nil _ (cons_ne_nil _ _)

theorem Progress.stageItem (h : Progress env db principal projectId plan body done loop)
    (hfresh : Fresh env db) (item) (hnew : item.taskId ∉ loop.seen)
    (hlaunchable : Launchable plan item) (hfree : loop.freeSlots item.machineId ≠ 0)
    (hitem : stageItem env principal projectId body done.length item
      { loop with
        freeSlots := Function.update loop.freeSlots item.machineId
          (loop.freeSlots item.machineId - 1)
        seen := item.taskId :: loop.seen } = .ok loop') :
    Progress env db principal projectId plan body (done ++ [item]) loop' := by
  unfold Admission.stageItem at hitem
  simp only [] at hitem
  split at hitem
  · rename_i working launch event hstage
    cases hitem
    obtain ⟨hstages, hid, hlaunches, hevents⟩ := stageLaunch_ok (h.fresh hfresh) hstage
    exact h.stage item hnew hlaunchable hfree hstages hid hlaunches hevents
  rename_i working error hstage
  obtain ⟨hlaunches, hevents⟩ := stageLaunch_error hstage
  split at hitem
  · cases hitem
    exact h.refuse item (fun taskId => mem_cons) hlaunches hevents rfl (refusals_refuse _ _ _ _ _)
  · cases hitem

theorem Progress.admitItem (h : Progress env db principal projectId plan body done loop)
    (hfresh : Fresh env db) (item)
    (hitem : admitItem env principal projectId plan body done.length item loop = .ok loop') :
    Progress env db principal projectId plan body (done ++ [item]) loop' := by
  unfold Admission.admitItem at hitem
  split at hitem
  · -- a duplicate
    rename_i hseen
    cases hitem
    refine h.refuse item ?_ rfl rfl rfl (refusals_refuse _ _ _ _ _)
    intro taskId
    constructor
    · exact .inr
    · rintro (rfl | hmem)
      · exact hseen
      · exact hmem
  · rename_i hnew
    simp only [] at hitem
    split at hitem
    · cases hitem
      exact h.refuse item (fun taskId => mem_cons) rfl rfl rfl (refusals_refuse _ _ _ _ _)
    rename_i candidate hcandidate
    split at hitem
    · cases hitem
      exact h.refuse item (fun taskId => mem_cons) rfl rfl rfl (refusals_refuse _ _ _ _ _)
    rename_i hmachine
    rw [not_or, not_not] at hmachine
    obtain ⟨hmem, htask⟩ := candidate_mem hcandidate
    split at hitem
    · cases hitem
      exact h.refuse item (fun taskId => mem_cons) rfl rfl rfl (refusals_refuse _ _ _ _ _)
    · split at hitem
      · exact h.stageItem hfresh item hnew ⟨candidate, hmem, htask, hmachine.1⟩ hmachine.2 hitem
      · cases hitem
        exact h.refuse item (fun taskId => mem_cons) rfl rfl rfl (refusals_refuse _ _ _ _ _)

theorem Progress.admitItems {items} (h : Progress env db principal projectId plan body done loop)
    (hfresh : Fresh env db)
    (hitems : admitItems env principal projectId plan body done.length items loop = .ok loop') :
    Progress env db principal projectId plan body (done ++ items) loop' := by
  induction items generalizing done loop with
  | nil =>
    cases hitems
    rw [append_nil]
    exact h
  | cons item rest ih =>
    obtain ⟨next, hitem, hrest⟩ := bind_ok hitems
    have hnext := h.admitItem hfresh item hitem
    rw [← singleton_append, ← append_assoc]
    refine ih hnext ?_
    rw [length_append]
    exact hrest

theorem progress_start (db) (plan body) :
    Progress env db principal projectId plan body []
      { working := db, freeSlots := plan.freeSlots, refusals := [], staged := [], seen := [] } := by
  refine ⟨?_, ?_, ?_, ?_, ?_⟩
  · intro taskId
    exact Iff.rfl
  · rw [map_nil, append_nil]
  · rw [map_nil, append_nil]
  · intro staged hstaged
    cases hstaged
  intro _
  refine ⟨.nil, nodup_nil, ?_, ?_⟩
  · intro item hitem
    cases hitem
  · intro machineId
    rw [countP_nil, Nat.add_zero]

/-! ## The call -/

theorem ensureRoadmapAccess_ok {action}
    (h : ensureRoadmapAccess db principal roadmapId action = .ok tree) :
    db.roadmaps.find? (·.id = roadmapId) = some tree := by
  unfold ensureRoadmapAccess at h
  split at h
  · cases h
  · rename_i found hfound
    obtain ⟨_, _, h⟩ := bind_ok h
    cases h
    exact hfound

theorem authorizeAdmit_ok (h : authorizeAdmit db principal roadmapId = .ok tree) :
    db.roadmaps.find? (·.id = roadmapId) = some tree := by
  obtain ⟨found, hfound, h⟩ := bind_ok h
  obtain ⟨_, _, h⟩ := bind_ok h
  cases h
  exact ensureRoadmapAccess_ok hfound

theorem dryRun_ok {digest harnessId settings now}
    (htree : db.roadmaps.find? (·.id = roadmapId) = some tree)
    (h : dryRun digest db principal roadmapId harnessId settings now = .ok plan) :
    plan = composeDryRun digest (admissionSnapshot db principal tree harnessId settings now) now := by
  obtain ⟨found, hfound, h⟩ := bind_ok h
  have hsame := (ensureRoadmapAccess_ok hfound).symm.trans htree
  cases hsame
  exact (Except.ok.inj h).symm

/-- A batch that was admitted: a launch with its event for every item, in
the order of the items, no task twice, every item launchable by the plan,
and no machine beyond its free slots. -/
structure Admits (env : Env) (db : Db) (principal : Principal) (tree : RoadmapTree)
    (plan : AdmissionDryRun) (body : AdmissionBatchRequest) (after : Db)
    (staged : List (LaunchRow × EventRow)) : Prop where
  launches : after.launches = db.launches ++ staged.map (·.1)
  events : after.events = db.events ++ staged.map (·.2)
  items : List.Forall₂ (Stages env principal tree.projectId body) body.items staged
  distinct : (body.items.map (·.taskId)).Nodup
  launchable : ∀ item ∈ body.items, Launchable plan item
  slots : ∀ machineId, body.items.countP (·.machineId = machineId) ≤ plan.freeSlots machineId

theorem admitPlan_spec (tree plan body) (hfresh : Fresh env db) :
    (∀ error, (admitPlan env (.begin db) principal tree body plan).2 = .error error →
      (admitPlan env (.begin db) principal tree body plan).1.close = db) ∧
    ∀ result, (admitPlan env (.begin db) principal tree body plan).2 = .ok result →
      ∃ staged, result.launches = staged.map (·.1) ∧ Admits env db principal tree plan body
          (admitPlan env (.begin db) principal tree body plan).1.close staged := by
  unfold admitPlan
  simp only []
  split
  · refine ⟨fun _ _ => rfl, fun result h => ?_⟩
    cases h
  rename_i loop hloop
  have hprogress := (progress_start db plan body).admitItems hfresh hloop
  by_cases hrefused : loop.refusals ≠ []
  · rw [if_pos hrefused]
    refine ⟨fun _ _ => rfl, fun result h => ?_⟩
    cases h
  rw [if_neg hrefused]
  refine ⟨fun error h => ?_, fun result h => ?_⟩
  · cases h
  cases h
  have hfull := hprogress.full (not_not.mp hrefused)
  refine ⟨loop.staged, rfl, hprogress.launches, hprogress.events, hfull.staged, hfull.distinct,
    hfull.launchable, ?_⟩
  intro machineId
  rw [hfull.slots machineId]
  exact Nat.le_add_left _ _

/-- A user with one machine of two slots, and a step with three tasks. -/
def sampleDb : Db :=
  { roadmaps := [⟨⟨"r"⟩, ⟨"p"⟩, .active, 1, [⟨"step", none, [], [⟨"a"⟩, ⟨"b"⟩, ⟨"c"⟩]⟩]⟩]
    tasks := ["a", "b", "c"].map fun id => ⟨⟨id⟩, id, .created, none⟩
    aiWork := []
    decisions := []
    claims := []
    machines := [⟨⟨"m"⟩, ⟨"u"⟩, "desk", some 0, some ⟨[⟨"cli", true, true⟩], [⟨"p"⟩], true, 0, 2, some true⟩,
      some 0, none⟩]
    users := []
    memberships := []
    grants := []
    launches := []
    policies := []
    reservations := []
    ledger := []
    events := [] }

def sampleEnv : Env :=
  { settings := ⟨30, 90⟩
    digest := fun _ => "digest"
    resolveProfilePin := fun _ _ _ _ => .ok none
    launchId := fun i => ⟨String.ofList (List.replicate i 'l')⟩
    eventId := fun i => ⟨String.ofList (List.replicate i 'e')⟩
    now := fun _ => 0
    began := 0
    evaluatedAt := 0
    admittedAt := 0 }

def samplePrincipal : Principal :=
  { machine := ⟨⟨"m"⟩, ⟨"u"⟩⟩, role := .developer, projectScope := .projects [⟨"p"⟩] }

def sampleBatch (tasks : List String) : AdmissionBatchRequest :=
  { planDigest := "digest"
    harnessId := "cli"
    items := tasks.map fun task => ⟨⟨task⟩, ⟨"m"⟩⟩
    agentStableKey := none
    profileKey := none
    expiresIn := Launches.sampleTtl }

theorem sampleEnv_fresh : Fresh sampleEnv sampleDb := by
  refine ⟨?_, ?_⟩
  · intro i e he
    cases he
  · intro i j h
    have hlist := congrArg (fun id : Uuid => id.str.toList.length) h
    simpa [sampleEnv] using hlist

/-- A call on the sample tables. -/
def sampleCall (tasks : List String) : Session × Except AdmissionError AdmissionBatchResult :=
  admitBatch sampleEnv (.begin sampleDb) samplePrincipal ⟨"r"⟩ (sampleBatch tasks)

section Partition

variable {snapshot : AdmissionSnapshot} {step : StepFacts} {task : TaskFacts}

def AdmissionExclusion.link (entry : AdmissionExclusion) : String × Uuid :=
  (entry.stepKey, entry.taskId)

def AdmissionCandidate.link (entry : AdmissionCandidate) : String × Uuid :=
  (entry.stepKey, entry.taskId)

/-- The links of the steps that are neither done nor skipped. -/
def treeLinks (db : Db) (tree : RoadmapTree) : List (String × Uuid) :=
  (tree.steps.filter fun step => step.state db ≠ .done ∧ step.state db ≠ .skipped).flatMap
    fun step => step.taskIds.map (step.key, ·)

theorem link_placeTask : Sum.elim AdmissionExclusion.link AdmissionCandidate.link
    (placeTask snapshot step task) = (step.key, task.taskId) := by
  simp only [placeTask]
  split <;> rfl

theorem halves_perm {α β γ : Type} (f : α → γ) (g : β → γ) (l : List (α ⊕ β)) :
    ((l.filterMap Sum.getLeft?).map f ++ (l.filterMap Sum.getRight?).map g).Perm
      (l.map (Sum.elim f g)) := by
  induction l with
  | nil => exact .nil
  | cons entry l ih =>
    cases entry with
    | inl a => exact ih.cons _
    | inr b => exact perm_middle.trans (ih.cons _)

/-- A launchable task is not running, and its step waits for nothing. -/
theorem placeTask_inr {candidate} (h : placeTask snapshot step task = .inr candidate) :
    step.waitingOn = [] ∧ task.launchActive = false := by
  simp only [placeTask] at h
  split at h
  · cases h
  rename_i hnone
  simp only [reasonIf, ne_eq, append_eq_nil_iff, not_not] at hnone
  obtain ⟨⟨⟨⟨⟨⟨⟨-, hwaiting⟩, -⟩, -⟩, hactive⟩, -⟩, -⟩, -⟩ := hnone
  exact ⟨by simpa using hwaiting, by simpa using hactive⟩

/-- Of its step, only whether it waits decides where a task is placed. -/
theorem placeTask_congr {other} (hstep : step.waitingOn = []) (hother : other.waitingOn = []) :
    (placeTask snapshot step task).isRight = (placeTask snapshot other task).isRight := by
  simp only [placeTask, hstep, hother]
  split <;> rfl

/-- How a plan covers the links of the tables it is made from. -/
structure Partitions (db : Db) (tree : RoadmapTree) (plan : AdmissionDryRun) : Prop where
  entries : (plan.excluded.map AdmissionExclusion.link ++
    plan.launchable.map AdmissionCandidate.link).Perm (treeLinks db tree)
  apart : ∀ taskId, (∀ step ∈ tree.steps, ∀ other ∈ tree.steps, taskId ∈ step.taskIds →
      taskId ∈ other.taskIds → (waitingOn db tree step = [] ↔ waitingOn db tree other = [])) →
    taskId ∈ plan.launchable.map (·.taskId) → taskId ∉ plan.excluded.map (·.taskId)
  ready : ∀ entry ∈ plan.launchable, launchActive db entry.taskId = false ∧
    ∃ step ∈ tree.steps, (step.key, entry.taskId) = entry.link ∧ entry.taskId ∈ step.taskIds ∧
      ∀ key ∈ step.dependsOn, ∃ dependency ∈ tree.steps, dependency.key = key ∧
        (dependency.state db = .done ∨ dependency.state db = .skipped)

theorem mem_placements {db harnessId settings now entry}
    (h : entry ∈ placements (admissionSnapshot db principal tree harnessId settings now)) :
    ∃ step ∈ tree.steps, ∃ taskId ∈ step.taskIds,
      Sum.elim AdmissionExclusion.link AdmissionCandidate.link entry = (step.key, taskId) ∧
      placeTask (admissionSnapshot db principal tree harnessId settings now)
        (stepFacts db tree now step) (taskFacts db tree.projectId taskId now) = entry := by
  obtain ⟨_, hstep, h⟩ := mem_flatMap.mp h
  obtain ⟨step, hmem, rfl⟩ := mem_map.mp (mem_filter.mp hstep).1
  obtain ⟨_, htask, rfl⟩ := mem_map.mp h
  obtain ⟨taskId, hlinked, rfl⟩ := mem_map.mp htask
  exact ⟨step, hmem, taskId, hlinked, link_placeTask, rfl⟩

end Partition

/-- One task is linked to a step that waits and to the step it waits for, another to a skipped
step. -/
def linkedTree : RoadmapTree :=
  { id := ⟨"r"⟩
    projectId := ⟨"p"⟩
    status := .active
    version := 1
    steps := [⟨"first", none, [], [⟨"a"⟩]⟩, ⟨"second", none, ["first"], [⟨"a"⟩]⟩,
      ⟨"third", some .skipped, [], [⟨"b"⟩]⟩] }

end StudioOS.Admission
