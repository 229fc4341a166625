import StudioOS.Roadmaps.Invariant

/-!
# Hydrating — what an applied hydration has done

The loop of `apply_hydration` in closed form: the items to be created get
the next ids in turn, each a task and a link, and nothing else changes.
-/

namespace StudioOS.Roadmaps

open List

variable {principal : Authz.Principal} {projectId : Uuid} {planned : List PlannedItem}
  {tasks : List TaskRow} {roadmap : Roadmap} {stepKeys : Option (List String)} {nextId : RowId}

def PlannedItem.isCreate (entry : PlannedItem) : Bool := entry.item.action = .create

def hydratedTask (projectId : Uuid) (entry : PlannedItem) (id : RowId) : TaskRow :=
  { id := id, projectId := projectId, title := entry.plan.title,
    description := entry.plan.description, status := .created }

def hydratedLink (entry : PlannedItem) (id : RowId) : LinkRow :=
  ⟨entry.step.id, id, some entry.plan.hydrationKey⟩

def hydratedTasks (projectId : Uuid) (nextId : RowId) (planned : List PlannedItem) : List TaskRow :=
  ((planned.filter (·.isCreate)).zipIdx nextId).map fun entry =>
    hydratedTask projectId entry.1 entry.2

def hydratedLinks (nextId : RowId) (planned : List PlannedItem) : List LinkRow :=
  ((planned.filter (·.isCreate)).zipIdx nextId).map fun entry => hydratedLink entry.1 entry.2

/-- The items as `apply_hydration` answers them, with the new task ids. -/
def hydratedItems (nextId : RowId) : List PlannedItem → List HydrationItem
  | [] => []
  | entry :: planned =>
    if entry.isCreate then
      { entry.item with taskId := some nextId } :: hydratedItems (nextId + 1) planned
    else entry.item :: hydratedItems nextId planned

def Hydrated.after (state : Hydrated) (planned : List PlannedItem) : Hydrated :=
  { session :=
      { roadmap := { state.session.roadmap with
          links := state.session.roadmap.links ++ hydratedLinks state.session.nextId planned }
        nextId := state.session.nextId + (planned.filter (·.isCreate)).length }
    tasks := state.tasks ++
      hydratedTasks state.session.roadmap.projectId state.session.nextId planned
    items := state.items ++ hydratedItems state.session.nextId planned }

theorem addTask_ok {id title description task}
    (h : addTask principal projectId id title description = .ok task) :
    task = { id := id, projectId := projectId, title := title, description := description,
             status := .created } := by
  obtain ⟨_, _, h⟩ := bind_ok h
  obtain ⟨_, _, h⟩ := bind_ok h
  exact (Except.ok.inj h).symm

theorem addTask_eq (haccess : Authz.ensureProjectAccess principal projectId "write" = .ok ())
    (hwrite : Authz.ensureCanWrite principal "task" = .ok ()) (id title)
    (description) : addTask principal projectId id title description =
      .ok { id := id, projectId := projectId, title := title, description := description,
            status := .created } := by
  rw [addTask, haccess, hwrite]
  rfl

theorem hydrateItems_ok {state state'}
    (h : hydrateItems principal state planned = .ok state') : state' = state.after planned := by
  induction planned generalizing state with
  | nil =>
    cases h
    simp [Hydrated.after, hydratedLinks, hydratedTasks, hydratedItems]
  | cons entry planned ih =>
    obtain ⟨between, hitem, h⟩ := bind_ok h
    rw [ih h]
    unfold hydrateItem at hitem
    by_cases hcreate : entry.item.action = .create
    · rw [if_neg (not_not.mpr hcreate)] at hitem
      obtain ⟨task, htask, hitem⟩ := bind_ok hitem
      cases hitem
      rw [addTask_ok htask]
      simp [Hydrated.after, hydratedLinks, hydratedTasks, hydratedItems, PlannedItem.isCreate,
        hcreate, hydratedTask, hydratedLink, Nat.add_assoc, Nat.add_comm 1]
    · rw [if_pos hcreate] at hitem
      cases hitem
      simp [Hydrated.after, hydratedLinks, hydratedTasks, hydratedItems, PlannedItem.isCreate,
        hcreate]

theorem hydrateItems_eq {state}
    (haccess : Authz.ensureProjectAccess principal state.session.roadmap.projectId "write" = .ok ())
    (hwrite : Authz.ensureCanWrite principal "task" = .ok ()) (planned) :
    hydrateItems principal state planned = .ok (state.after planned) := by
  have hsome : ∃ state', hydrateItems principal state planned = .ok state' := by
    induction planned generalizing state with
    | nil => exact ⟨state, rfl⟩
    | cons entry planned ih =>
      by_cases hcreate : entry.item.action = .create
      · have hitem : ∃ between, hydrateItem principal state entry = .ok between ∧
            between.session.roadmap.projectId = state.session.roadmap.projectId := by
          simp only [hydrateItem, hcreate, ne_eq, not_true_eq_false, if_false,
            addTask_eq haccess hwrite]
          exact ⟨_, rfl, rfl⟩
        obtain ⟨between, hitem, hproject⟩ := hitem
        obtain ⟨state', hrest⟩ := @ih between (hproject ▸ haccess)
        refine ⟨state', ?_⟩
        show (hydrateItem principal state entry >>= fun state =>
          hydrateItems principal state planned) = _
        rw [hitem]
        exact hrest
      · obtain ⟨state', hrest⟩ := @ih
          { state with items := state.items ++ [entry.item] } haccess
        refine ⟨state', ?_⟩
        show (hydrateItem principal state entry >>= fun state =>
          hydrateItems principal state planned) = _
        rw [hydrateItem, if_pos hcreate]
        exact hrest
  obtain ⟨state', h⟩ := hsome
  rw [h, hydrateItems_ok h]

/-! ## The plan -/

theorem planHydration_ok

    (h : planHydration tasks roadmap stepKeys = .ok planned) :
    planned = (roadmap.stepsInOrder.filter (wanted stepKeys)).flatMap fun step =>
      step.taskPlan.map (planItem tasks roadmap step) := by
  unfold planHydration at h
  split at h
  · cases h
  · exact (Except.ok.inj h).symm

theorem applyHydration_ok {session session' tasks' writer payload result}
    (h : applyHydration session tasks writer payload = .ok (session', tasks', result)) :
    guardWrite writer session.roadmap .hydrationApply = .ok () ∧ resolveProvenance writer = .ok () ∧
      session.roadmap.version = payload.expectedVersion ∧
      ∃ planned, planHydration tasks session.roadmap payload.stepKeys = .ok planned ∧
        session' = ((Hydrated.mk session tasks []).after planned).session ∧
        tasks' = tasks ++ hydratedTasks session.roadmap.projectId session.nextId planned ∧
        result = hydrationResult session'.roadmap (hydratedItems session.nextId planned) true := by
  obtain ⟨_, hguard, h⟩ := bind_ok h
  obtain ⟨_, hresolve, h⟩ := bind_ok h
  obtain ⟨_, hversion, h⟩ := bind_ok h
  obtain ⟨planned, hplanned, h⟩ := bind_ok h
  obtain ⟨state, hstate, h⟩ := bind_ok h
  obtain rfl := hydrateItems_ok hstate
  cases h
  refine ⟨hguard, hresolve, ?_, planned, hplanned, rfl, rfl, rfl⟩
  exact not_not.mp (guard_ok hversion).1

theorem mem_planned (h : planHydration tasks roadmap stepKeys = .ok planned) {entry}
    (hentry : entry ∈ planned) :
    entry.step ∈ roadmap.steps ∧ entry.plan ∈ entry.step.taskPlan ∧
      entry = planItem tasks roadmap entry.step entry.plan := by
  rw [planHydration_ok h] at hentry
  obtain ⟨step, hstep, hitem⟩ := mem_flatMap.mp hentry
  obtain ⟨plan, hplan, rfl⟩ := mem_map.mp hitem
  exact ⟨(stepsInOrder_perm roadmap).mem_iff.mp (mem_of_mem_filter hstep), hplan, rfl⟩

theorem planned_apart (hsound : roadmap.plan.Sound nextId)
    (h : planHydration tasks roadmap stepKeys = .ok planned) : planned.Pairwise fun a b =>
      ¬ (a.step.id = b.step.id ∧ a.plan.hydrationKey = b.plan.hydrationKey) := by
  rw [planHydration_ok h]
  have hperm := stepsInOrder_perm roadmap
  refine pairwise_flatMap.mpr ⟨?_, ?_⟩
  · intro step hstep
    have hmem := hperm.mem_iff.mp (mem_of_mem_filter hstep)
    have hkeys := pairwise_map.mp (hsound.steps.plans step hmem)
    exact pairwise_map.mpr (hkeys.imp fun hne heq => hne heq.2)
  have hids : (roadmap.stepsInOrder.map (·.id)).Nodup :=
    (hperm.map _).nodup_iff.mpr hsound.steps.ids
  refine ((pairwise_map.mp hids).filter _).imp ?_
  intro a b hne x hx y hy heq
  obtain ⟨_, _, rfl⟩ := mem_map.mp hx
  obtain ⟨_, _, rfl⟩ := mem_map.mp hy
  exact hne heq.1

theorem not_linked_of_create {step plan} (h : (planItem tasks roadmap step plan).isCreate) :
    roadmap.linked step.id plan.hydrationKey = none := by
  have haction : planAction (stepState tasks roadmap step)
      (roadmap.linked step.id plan.hydrationKey) = .create := of_decide_eq_true h
  unfold planAction at haction
  split at haction
  · cases haction
  · cases haction
  all_goals
    split at haction
    · cases haction
    · rename_i hnone
      simpa using hnone

theorem linked_none {stepId hydrationKey} (h : roadmap.linked stepId hydrationKey = none) :
    ∀ link ∈ roadmap.links, link.stepId = stepId → link.hydrationKey ≠ some hydrationKey := by
  intro link hlink hstep hkey
  have hfind := List.find?_eq_none.mp (Option.map_eq_none_iff.mp h) link
    (mem_filter.mpr ⟨hlink, by simpa using hstep⟩)
  simp [hkey] at hfind

theorem mem_hydratedLinks {link} (h : link ∈ hydratedLinks nextId planned) :
    ∃ entry ∈ planned, entry.isCreate ∧ ∃ id, link = hydratedLink entry id := by
  obtain ⟨pair, hpair, rfl⟩ := mem_map.mp h
  obtain ⟨hmem, hcreate⟩ := mem_filter.mp (fst_mem_of_mem_zipIdx hpair)
  exact ⟨pair.1, hmem, hcreate, pair.2, rfl⟩

theorem task_of_hydratedLink {link} (h : link ∈ hydratedLinks nextId planned) (projectId) :
    link.taskId ∈ (hydratedTasks projectId nextId planned).map (·.id) := by
  obtain ⟨pair, hpair, rfl⟩ := mem_map.mp h
  exact mem_map.mpr ⟨_, mem_map_of_mem hpair, rfl⟩

theorem mem_hydratedTasks {task} (h : task ∈ hydratedTasks projectId nextId planned) :
    nextId ≤ task.id ∧ task.id < nextId + (planned.filter (·.isCreate)).length := by
  obtain ⟨pair, hpair, rfl⟩ := mem_map.mp h
  exact ⟨le_snd_of_mem_zipIdx hpair, snd_lt_add_of_mem_zipIdx hpair⟩

/-- **An applied hydration keeps the plan sound.** -/
theorem hydrated_sound {session}
    (hplanned : planHydration tasks session.roadmap stepKeys = .ok planned)
    (hsound : session.Sound) : ((Hydrated.mk session tasks []).after planned).session.Sound := by
  have hle : session.nextId ≤ session.nextId + (planned.filter (·.isCreate)).length :=
    Nat.le_add_right _ _
  refine ⟨hsound.phases.mono hle, hsound.steps.mono hle, hsound.graph, ?_, ?_⟩
  · intro link hlink
    rcases mem_append.mp hlink with hlink | hlink
    · exact hsound.links.inside link hlink
    · obtain ⟨entry, hentry, _, id, rfl⟩ := mem_hydratedLinks hlink
      exact mem_map_of_mem (mem_planned hplanned hentry).1
  refine pairwise_append.mpr ⟨hsound.links.apart, ?_, ?_⟩
  · -- two new links are of two planned items
    have hpairs : ((planned.filter (·.isCreate)).zipIdx session.nextId).Pairwise fun a b =>
        ¬ (a.1.step.id = b.1.step.id ∧ a.1.plan.hydrationKey = b.1.plan.hydrationKey) := by
      have hfst := (planned_apart hsound hplanned).filter (·.isCreate)
      rw [← zipIdx_map_fst session.nextId (planned.filter (·.isCreate))] at hfst
      exact pairwise_map.mp hfst
    refine pairwise_map.mpr (hpairs.imp ?_)
    intro a b hne hstep hkey
    exact absurd ⟨hstep, Option.some.inj hkey⟩ hne
  · intro old hold link hlink hstep hkey
    obtain ⟨entry, hentry, hcreate, id, rfl⟩ := mem_hydratedLinks hlink
    obtain ⟨_, _, hitem⟩ := mem_planned hplanned hentry
    have hnone := linked_none (not_linked_of_create (hitem ▸ hcreate))
    exact absurd hkey (hnone old hold hstep)

end StudioOS.Roadmaps
