import StudioOS.Roadmaps.Reach

/-!
# Preview — a hydration does what its preview says

What an applied hydration creates are the items its preview reports, and a
second one with the same request finds them all linked.
-/

namespace StudioOS.Roadmaps

open List Runs

variable {roadmap : Roadmap} {step : StepRow} {writer : Writer}

theorem linked_isSome {stepId hydrationKey} :
    (roadmap.linked stepId hydrationKey).isSome ↔
      ∃ link ∈ roadmap.links, link.stepId = stepId ∧ link.hydrationKey = some hydrationKey := by
  constructor
  · intro h
    obtain ⟨taskId, htask⟩ := Option.isSome_iff_exists.mp h
    obtain ⟨link, hlink, _⟩ := Option.map_eq_some_iff.mp htask
    obtain ⟨hmem, hstep⟩ := mem_filter.mp (List.mem_of_find?_eq_some hlink)
    exact ⟨link, hmem, by simpa using hstep, by simpa using List.find?_some hlink⟩
  · rintro ⟨link, hlink, hstep, hkey⟩
    cases hnone : roadmap.linked stepId hydrationKey with
    | some taskId => rfl
    | none => exact absurd hkey (linked_none hnone link hlink hstep)

theorem isCreate_iff {tasks plan} : (planItem tasks roadmap step plan).isCreate ↔
      stepState tasks roadmap step ≠ .done ∧ stepState tasks roadmap step ≠ .skipped ∧
        (roadmap.linked step.id plan.hydrationKey).isSome = false := by
  show decide (planAction (stepState tasks roadmap step)
    (roadmap.linked step.id plan.hydrationKey) = .create) = true ↔ _
  cases stepState tasks roadmap step <;>
    cases roadmap.linked step.id plan.hydrationKey <;> simp [planAction]

theorem taskStatus_append {tasks added taskId} (h : taskId ∈ tasks.map (·.id)) :
    taskStatus (tasks ++ added) taskId = taskStatus tasks taskId := by
  obtain ⟨task, htask, hid⟩ := mem_map.mp h
  have hsome : (tasks.find? (·.id = taskId)).isSome :=
    List.find?_isSome.mpr ⟨task, htask, by simpa using hid⟩
  rw [taskStatus, taskStatus, List.find?_append, Option.or_of_isSome hsome]

theorem planHydration_eq {tasks stepKeys}
    (h : (stepKeys.getD []).find? (fun key => (roadmap.stepByKey key).isNone) = none) :
    planHydration tasks roadmap stepKeys =
      .ok ((roadmap.stepsInOrder.filter (wanted stepKeys)).flatMap fun step =>
        step.taskPlan.map (planItem tasks roadmap step)) := by
  rw [planHydration, h]

section After

variable {session : Session}

theorem stepState_after {tasks stepKeys planned} (hsound : session.Sound)
    (hlinked : ∀ link ∈ session.roadmap.links, link.taskId ∈ tasks.map (·.id))
    (hplanned : planHydration tasks session.roadmap stepKeys = .ok planned)
    (hstep : step ∈ session.roadmap.steps) (hover : stepState tasks session.roadmap step = .done ∨
      stepState tasks session.roadmap step = .skipped) :
    stepState (tasks ++ hydratedTasks session.roadmap.projectId session.nextId planned)
        ((Hydrated.mk session tasks []).after planned).session.roadmap step =
      stepState tasks session.roadmap step := by
  have hnone : (hydratedLinks session.nextId planned).filter (·.stepId = step.id) = [] := by
    apply filter_eq_nil_iff.mpr
    intro link hlink heq
    obtain ⟨entry, hentry, hcreate, id, rfl⟩ := mem_hydratedLinks hlink
    obtain ⟨hmem, _, hitem⟩ := mem_planned hplanned hentry
    obtain rfl := Keyed.eq_of_key hsound.steps.ids hmem hstep (of_decide_eq_true heq)
    rw [hitem] at hcreate
    obtain ⟨hdone, hskipped, _⟩ := isCreate_iff.mp hcreate
    rcases hover with hover | hover
    · exact hdone hover
    · exact hskipped hover
  have hlinks : ((Hydrated.mk session tasks []).after planned).session.roadmap.linksOf step.id =
      session.roadmap.linksOf step.id := by
    show (session.roadmap.links ++ hydratedLinks session.nextId planned).filter _ = _
    rw [filter_append, hnone, append_nil]
    rfl
  rw [stepState, stepState, hlinks]
  congr 1
  apply filterMap_congr
  intro link hlink
  exact taskStatus_append (hlinked link (mem_of_mem_filter hlink))

theorem planHydration_again {tasks stepKeys planned} (hsound : session.Sound)
    (hlinked : ∀ link ∈ session.roadmap.links, link.taskId ∈ tasks.map (·.id))
    (hplanned : planHydration tasks session.roadmap stepKeys = .ok planned) : ∃ again, planHydration
        (tasks ++ hydratedTasks session.roadmap.projectId session.nextId planned)
        ((Hydrated.mk session tasks []).after planned).session.roadmap stepKeys = .ok again ∧
      again.filter (·.isCreate) = [] := by
  have hknown : (stepKeys.getD []).find? (fun key => (session.roadmap.stepByKey key).isNone) =
      none := by
    unfold planHydration at hplanned
    split at hplanned
    · cases hplanned
    · assumption
  refine ⟨(session.roadmap.stepsInOrder.filter (wanted stepKeys)).flatMap fun step =>
    step.taskPlan.map (planItem
      (tasks ++ hydratedTasks session.roadmap.projectId session.nextId planned)
      ((Hydrated.mk session tasks []).after planned).session.roadmap step), ?_, ?_⟩
  · exact planHydration_eq hknown
  apply filter_eq_nil_iff.mpr
  intro entry hentry hcreate
  obtain ⟨step, hstep, hitem⟩ := mem_flatMap.mp hentry
  obtain ⟨plan, hplan, rfl⟩ := mem_map.mp hitem
  obtain ⟨hdone, hskipped, hlink⟩ := isCreate_iff.mp hcreate
  have hmem : step ∈ session.roadmap.steps :=
    (stepsInOrder_perm session.roadmap).mem_iff.mp (mem_of_mem_filter hstep)
  have hfirst : planItem tasks session.roadmap step plan ∈ planned := by
    rw [planHydration_ok hplanned]
    exact mem_flatMap.mpr ⟨step, hstep, mem_map_of_mem hplan⟩
  -- a link that is there now makes the item a `reuse`
  have hnow : ¬ ∃ link ∈ session.roadmap.links ++ hydratedLinks session.nextId planned,
      link.stepId = step.id ∧ link.hydrationKey = some plan.hydrationKey := by
    intro hex
    have hsome : (((Hydrated.mk session tasks []).after planned).session.roadmap.linked step.id
        plan.hydrationKey).isSome := linked_isSome.mpr hex
    rw [hlink] at hsome
    cases hsome
  by_cases hover : stepState tasks session.roadmap step = .done ∨
      stepState tasks session.roadmap step = .skipped
  · have hsame := stepState_after hsound hlinked hplanned hmem hover
    rcases hover with hover | hover
    · exact hdone (hsame.trans hover)
    · exact hskipped (hsame.trans hover)
  obtain ⟨hnotDone, hnotSkipped⟩ := not_or.mp hover
  cases hbefore : (session.roadmap.linked step.id plan.hydrationKey).isSome with
  | true =>
    obtain ⟨link, hmemLink, heq⟩ := linked_isSome.mp hbefore
    exact hnow ⟨link, mem_append_left _ hmemLink, heq⟩
  | false =>
    have hcreated := isCreate_iff.mpr ⟨hnotDone, hnotSkipped, hbefore⟩
    have hin := mem_filter.mpr ⟨hfirst, hcreated⟩
    rw [← zipIdx_map_fst session.nextId (planned.filter (·.isCreate))] at hin
    obtain ⟨pair, hpair, heq⟩ := mem_map.mp hin
    refine hnow ⟨hydratedLink pair.1 pair.2, mem_append_right _ (mem_map_of_mem hpair), ?_⟩
    rw [heq]
    exact ⟨rfl, rfl⟩

end After

/-! ## Preview and apply -/

/-- What is made of some items: a new task and a link for each, in order. -/
structure Materialised (tasks : List TaskRow) (roadmap : Roadmap) (items : List HydrationItem)
    (added : List TaskRow) (links : List LinkRow) : Prop where
  created : List.Forall₂ (fun item task => task.title = item.title ∧
    task.projectId = roadmap.projectId ∧ task.status = .created) items added
  linked : List.Forall₂ (fun item link => link.hydrationKey = some item.hydrationKey ∧
    ∃ step ∈ roadmap.steps, step.key = item.stepKey ∧ step.id = link.stepId) items links
  targets : links.map (·.taskId) = added.map (·.id)
  fresh : ∀ task ∈ added, ∀ old ∈ tasks, task.id ≠ old.id

theorem forall₂_zipIdx {α : Type} {R : α → α × Nat → Prop} {entries : List α} {first : Nat}
    (h : ∀ entry ∈ entries, ∀ number, R entry (entry, number)) :
    List.Forall₂ R entries (entries.zipIdx first) := by
  induction entries generalizing first with
  | nil => exact .nil
  | cons entry entries ih =>
    rw [zipIdx_cons]
    exact .cons (h entry mem_cons_self first) (ih fun other hother => h other (.tail _ hother))

theorem materialised {session : Session} {tasks : List TaskRow} {stepKeys : Option (List String)}
    {planned : List PlannedItem} (htasks : ∀ task ∈ tasks, task.id < session.nextId)
    (hplanned : planHydration tasks session.roadmap stepKeys = .ok planned) :
    Materialised tasks session.roadmap ((planned.map (·.item)).filter (·.action = .create))
      (hydratedTasks session.roadmap.projectId session.nextId planned)
      (hydratedLinks session.nextId planned) := by
  have hitems : (planned.map (·.item)).filter (·.action = .create) =
      (planned.filter (·.isCreate)).map (·.item) := by
    rw [filter_map]
    rfl
  have hentry : ∀ {entry : PlannedItem}, entry ∈ planned.filter (·.isCreate) →
      entry.step ∈ session.roadmap.steps ∧
        entry = planItem tasks session.roadmap entry.step entry.plan := by
    intro entry hmem
    obtain ⟨hstep, _, hitem⟩ := mem_planned hplanned (mem_of_mem_filter hmem)
    exact ⟨hstep, hitem⟩
  rw [hitems]
  refine ⟨?_, ?_, ?_, ?_⟩
  · refine List.forall₂_map_left_iff.mpr (List.forall₂_map_right_iff.mpr (forall₂_zipIdx ?_))
    intro entry hmem number
    refine ⟨?_, rfl, rfl⟩
    show entry.plan.title = entry.item.title
    rw [(hentry hmem).2]
    rfl
  · refine List.forall₂_map_left_iff.mpr (List.forall₂_map_right_iff.mpr (forall₂_zipIdx ?_))
    intro entry hmem number
    obtain ⟨hstep, hitem⟩ := hentry hmem
    refine ⟨?_, entry.step, hstep, ?_, rfl⟩
    · show some entry.plan.hydrationKey = some entry.item.hydrationKey
      rw [hitem]
      rfl
    · rw [hitem]
      rfl
  · rw [hydratedLinks, hydratedTasks, map_map, map_map]
    rfl
  · intro task htask old hold heq
    exact absurd ((mem_hydratedTasks htask).1.trans heq.le) (htasks old hold).not_ge

theorem read_of_guardWrite {kind} (h : guardWrite writer roadmap kind = .ok ()) :
    Authz.ensureProjectAccess writer.principal roadmap.projectId "read" = .ok () ∧
      Authz.ensureProjectAccess writer.principal roadmap.projectId "write" = .ok () ∧
      Authz.ensureCanWrite writer.principal "task" = .ok () := by
  obtain ⟨_, haccess, h⟩ := bind_ok h
  obtain ⟨_, hwrite, _⟩ := bind_ok h
  have hproject : Authz.hasProjectAccess writer.principal roadmap.projectId = true := by
    unfold Authz.ensureProjectAccess at haccess
    split at haccess
    · assumption
    · cases haccess
  have hrole : writer.principal.role ≠ .readonly := (guard_ok hwrite).1
  exact ⟨if_pos hproject, haccess, if_neg hrole⟩

theorem applyHydration_iff {payload session tasks} :
    (∃ applied, applyHydration session tasks writer payload = .ok applied) ↔
      guardWrite writer session.roadmap .hydrationApply = .ok () ∧
        resolveProvenance writer = .ok () ∧ session.roadmap.version = payload.expectedVersion ∧
        ∃ preview, previewHydration tasks session.roadmap writer.principal payload.stepKeys =
          .ok preview := by
  constructor
  · rintro ⟨⟨session', tasks', result⟩, happly⟩
    obtain ⟨hguard, hresolve, hversion, planned, hplanned, _⟩ := applyHydration_ok happly
    have hallowed := guardWrite_ok hguard
    have harchived : session.roadmap.status ≠ .archived := by
      intro heq
      rw [heq] at hallowed
      cases hallowed
    refine ⟨hguard, hresolve, hversion, hydrationResult session.roadmap (planned.map (·.item)) false,
      ?_⟩
    rw [previewHydration, (read_of_guardWrite hguard).1]
    show (if session.roadmap.status = .archived then _ else _) = _
    rw [if_neg harchived, hplanned]
    rfl
  · rintro ⟨hguard, hresolve, hversion, preview, hpreview⟩
    obtain ⟨_, haccess, hwrite⟩ := read_of_guardWrite hguard
    obtain ⟨_, _, hpreview⟩ := bind_ok hpreview
    obtain ⟨_, hpreview⟩ := guard_ok hpreview
    obtain ⟨planned, hplanned, _⟩ := bind_ok hpreview
    have hitems := @hydrateItems_eq writer.principal ⟨session, tasks, []⟩ haccess hwrite planned
    have hcheck : checkVersion session.roadmap.version payload.expectedVersion = .ok () :=
      if_neg (not_not.mpr hversion)
    let state := (Hydrated.mk session tasks []).after planned
    refine ⟨(state.session, state.tasks, hydrationResult state.session.roadmap state.items true),
      ?_⟩
    rw [applyHydration, hguard, hresolve]
    show (checkVersion session.roadmap.version payload.expectedVersion >>= _) = _
    rw [hcheck]
    show (planHydration tasks session.roadmap payload.stepKeys >>= _) = _
    rw [hplanned]
    show (hydrateItems writer.principal ⟨session, tasks, []⟩ planned >>= _) = _
    rw [hitems]
    rfl

theorem hydratedItems_forall₂ (nextId) (planned) :
    List.Forall₂ (fun before after : HydrationItem => { before with taskId := after.taskId } = after ∧
        (before.action ≠ .create → after = before))
      (planned.map (·.item)) (hydratedItems nextId planned) := by
  induction planned generalizing nextId with
  | nil => exact .nil
  | cons entry planned ih =>
    rw [hydratedItems]
    by_cases hcreate : entry.isCreate
    · rw [if_pos hcreate]
      exact .cons ⟨rfl, fun hne => absurd (of_decide_eq_true hcreate) hne⟩ (ih (nextId + 1))
    · rw [if_neg hcreate]
      exact .cons ⟨rfl, fun _ => rfl⟩ (ih nextId)

theorem Hydrated.after_nothing (state : Hydrated) {planned} (h : planned.filter (·.isCreate) = []) :
    (state.after planned).session = state.session ∧ (state.after planned).tasks = state.tasks := by
  simp [Hydrated.after, hydratedLinks, hydratedTasks, h]

theorem applyHydration_again {payload session session' tasks tasks' result} (hsound : session.Sound)
    (hlinked : ∀ link ∈ session.roadmap.links, link.taskId ∈ tasks.map (·.id))
    (h : applyHydration session tasks writer payload = .ok (session', tasks', result)) :
    ∃ again, applyHydration session' tasks' writer payload = .ok (session', tasks', again) := by
  obtain ⟨hguard, hresolve, hversion, planned, hplanned, rfl, rfl, _⟩ := applyHydration_ok h
  obtain ⟨replanned, hreplanned, hnothing⟩ := planHydration_again hsound hlinked hplanned
  let state := (Hydrated.mk session tasks []).after planned
  have harchived : state.session.roadmap.status ≠ .archived := by
    intro heq
    have hallowed := guardWrite_ok hguard
    rw [show session.roadmap.status = .archived from heq] at hallowed
    cases hallowed
  have hpreview : ∃ preview, previewHydration state.tasks state.session.roadmap writer.principal
      payload.stepKeys = .ok preview := by
    refine ⟨hydrationResult state.session.roadmap (replanned.map (·.item)) false, ?_⟩
    rw [previewHydration, show Authz.ensureProjectAccess writer.principal
      state.session.roadmap.projectId "read" = .ok () from (read_of_guardWrite hguard).1]
    show (if state.session.roadmap.status = .archived then _ else _) = _
    rw [if_neg harchived, show planHydration state.tasks state.session.roadmap payload.stepKeys =
      .ok replanned from hreplanned]
    rfl
  obtain ⟨⟨again, tasksAgain, result'⟩, happly⟩ := applyHydration_iff.mpr
    ⟨show guardWrite writer state.session.roadmap .hydrationApply = .ok () from hguard, hresolve,
      hversion, hpreview⟩
  obtain ⟨_, _, _, planned', hplanned', hagain, htasks, _⟩ := applyHydration_ok happly
  obtain rfl := Except.ok.inj (hreplanned.symm.trans hplanned')
  obtain ⟨hsession, hsame⟩ := Hydrated.after_nothing ⟨state.session, state.tasks, []⟩ hnothing
  obtain rfl := hagain.trans hsession
  obtain rfl := htasks.trans hsame
  exact ⟨result', happly⟩

/-- **What a hydration creates is what its preview says**, and the next one creates nothing. -/
theorem apply_as_previewed {db : Db} (h : Reachable db) {roadmap : Roadmap}
    (hmem : roadmap ∈ db.roadmaps) (writer : Writer) (payload : HydrationApplyRequest) :
    ((∃ applied, applyHydration ⟨roadmap, db.nextId⟩ db.tasks writer payload = .ok applied) ↔
      guardWrite writer roadmap .hydrationApply = .ok () ∧ resolveProvenance writer = .ok () ∧
        roadmap.version = payload.expectedVersion ∧
        ∃ preview, previewHydration db.tasks roadmap writer.principal payload.stepKeys =
          .ok preview) ∧
    (∀ session tasks result, applyHydration ⟨roadmap, db.nextId⟩ db.tasks writer payload =
        .ok (session, tasks, result) → ∃ preview added links,
        previewHydration db.tasks roadmap writer.principal payload.stepKeys = .ok preview ∧
        Materialised db.tasks roadmap (preview.items.filter (·.action = .create)) added links ∧
        tasks = db.tasks ++ added ∧
        session.roadmap = { roadmap with links := roadmap.links ++ links } ∧
        List.Forall₂ (fun before after : HydrationItem =>
          { before with taskId := after.taskId } = after ∧
            (before.action ≠ .create → after = before)) preview.items result.items ∧
        ∃ again, applyHydration session tasks writer payload = .ok (session, tasks, again)) ∧
    ∀ stepId hydrationKey, (roadmap.links.filter fun link =>
      link.stepId = stepId ∧ link.hydrationKey = some hydrationKey).length ≤ 1 := by
  have hgood := h.good
  have hsound : Session.Sound ⟨roadmap, db.nextId⟩ := (hgood.good roadmap hmem).sound
  refine ⟨applyHydration_iff, ?_, ?_⟩
  · intro session tasks result happly
    have hpreview := (applyHydration_iff.mp ⟨_, happly⟩).2.2.2
    have hagain := applyHydration_again hsound (hgood.linked roadmap hmem) happly
    obtain ⟨preview, hpreview⟩ := hpreview
    obtain ⟨_, _, _, planned, hplanned, rfl, rfl, rfl⟩ := applyHydration_ok happly
    obtain ⟨_, _, hread⟩ := bind_ok hpreview
    obtain ⟨_, hread⟩ := guard_ok hread
    obtain ⟨planned', hplanned', hread⟩ := bind_ok hread
    obtain rfl := Except.ok.inj (hplanned.symm.trans hplanned')
    cases hread
    exact ⟨_, _, _, hpreview, materialised hgood.tasks hplanned, rfl, rfl,
      hydratedItems_forall₂ db.nextId planned, hagain⟩
  · intro stepId hydrationKey
    refine Keyed.length_filter_le_one hsound.links.apart ?_
    intro a _ b _ ha hb hapart
    obtain ⟨hstep, hkey⟩ := of_decide_eq_true ha
    obtain ⟨hstep', hkey'⟩ := of_decide_eq_true hb
    have hnone := hapart (hstep.trans hstep'.symm) (hkey.trans hkey'.symm)
    rw [hkey] at hnone
    cases hnone

/-- An active plan whose step `S2` is hydrated; the others still wait. -/
def hydratedPlan : List (Writer × Act) :=
  [(admin, .importRoadmap ⟨⟨"project"⟩, plannedDocument "Plan", true⟩),
    (admin, .request 0 (.transitionRoadmap ⟨.approve, 1, none⟩)),
    (admin, .applyHydration 0 ⟨some ["S2"], 2⟩)]

theorem apply_as_previewed_hydratedPlan : ∃ db roadmap session tasks result preview added,
    Reachable db ∧ roadmap ∈ db.roadmaps ∧
    applyHydration ⟨roadmap, db.nextId⟩ db.tasks admin ⟨none, 2⟩ = .ok (session, tasks, result) ∧
    previewHydration db.tasks roadmap admin.principal none = .ok preview ∧
    preview.items.map (·.action) = [.create, .reuse, .create] ∧
    tasks = db.tasks ++ added ∧ added.length = 2 := by
  have hrun : (execWithin Db.step Free (Db.start [⟨"project"⟩]) hydratedPlan).any fun db =>
      db.roadmaps.any fun roadmap =>
        (applyHydration ⟨roadmap, db.nextId⟩ db.tasks admin ⟨none, 2⟩).toOption.isSome &&
        ((previewHydration db.tasks roadmap admin.principal none).toOption.map fun preview =>
          preview.items.map (·.action)) = some [.create, .reuse, .create] := by decide +kernel
  obtain ⟨db, hdb, hany⟩ := Run.of_any hrun
  obtain ⟨roadmap, hmem, hboth⟩ := any_eq_true.mp hany
  obtain ⟨happly, hactions⟩ := Bool.and_eq_true_iff.mp hboth
  obtain ⟨⟨session, tasks, result⟩, happly⟩ := Option.isSome_iff_exists.mp happly
  have happly := ok_of_toOption happly
  have hreach : Reachable db := ⟨_, _, hdb⟩
  obtain ⟨preview, added, links, hpreview, hmade, htasks, _⟩ :=
    (apply_as_previewed hreach hmem admin ⟨none, 2⟩).2.1 session tasks result happly
  have hitems : preview.items.map (·.action) = [.create, .reuse, .create] := by
    have hsome := of_decide_eq_true hactions
    rw [hpreview] at hsome
    exact Option.some.inj hsome
  refine ⟨db, roadmap, session, tasks, result, preview, added, hreach, hmem, happly, hpreview,
    hitems, htasks, ?_⟩
  have hcount : (preview.items.filter (·.action = .create)).length =
      ((preview.items.map (·.action)).filter (· = .create)).length := by
    rw [filter_map, length_map]
    rfl
  rw [← hmade.created.length_eq, hcount, hitems]
  rfl

end StudioOS.Roadmaps
