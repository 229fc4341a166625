import Mathlib.Order.WellFounded
import StudioOS.Roadmaps.Hydrating

/-!
# Reach — what holds of every state that requests have made

The invariant of the committed rows, kept by every request that commits,
and with it the plan invariant of every reachable state.
-/

namespace StudioOS.Roadmaps

open List Rows Runs

section Request

variable {tasks : List TaskRow} {session session' : Session}

/-- The row of the roadmap stays the row of the roadmap. -/
structure SameRow (otherActive : Bool) (tasks : List TaskRow) (session session' : Session) :
    Prop where
  id : session'.roadmap.id = session.roadmap.id
  projectId : session'.roadmap.projectId = session.roadmap.projectId
  fresh : session.nextId ≤ session'.nextId
  active : session'.roadmap.status = .active →
    session.roadmap.status = .active ∨ otherActive = false
  links : ∀ link ∈ session'.roadmap.links,
    link ∈ session.roadmap.links ∨ link.taskId ∈ tasks.map (·.id)

theorem sameLedger_contentChanged (roadmap) : (contentChanged roadmap).id = roadmap.id ∧
      (contentChanged roadmap).projectId = roadmap.projectId ∧
      (contentChanged roadmap).status = roadmap.status ∧
      (contentChanged roadmap).links = roadmap.links := by
  show Roadmap.id (if _ then _ else _) = _ ∧ Roadmap.projectId (if _ then _ else _) = _ ∧
    Roadmap.status (if _ then _ else _) = _ ∧ Roadmap.links (if _ then _ else _) = _
  split <;> exact ⟨rfl, rfl, rfl, rfl⟩

theorem Edit.sameRow {kind} (h : Edit tasks session kind session')
    (otherActive) : SameRow otherActive tasks session session' := by
  cases h with
  | same => exact ⟨rfl, rfl, Nat.le_refl _, .inl, fun _ hlink => .inl hlink⟩
  | @content roadmap nextId ledger _ _ fresh links _ =>
    obtain ⟨hid, hproject, hstatus, hlinks⟩ := sameLedger_contentChanged roadmap
    refine ⟨hid.trans ledger.id, hproject.trans ledger.projectId, fresh, ?_, ?_⟩
    · intro hactive
      exact .inl ((hstatus.trans ledger.status).symm.trans hactive)
    · intro link hlink
      exact .inl (links link (hlinks ▸ hlink))
  | progress ledger _ _ _ links _ =>
    refine ⟨ledger.id, ledger.projectId, Nat.le_refl _, ?_, links⟩
    intro hactive
    exact .inl (ledger.status.symm.trans hactive)

theorem transitioned_row {roadmap target payload}
    (htarget : transitionTarget roadmap.status payload.transition = some target) :
    (transitioned roadmap target payload).id = roadmap.id ∧
      (transitioned roadmap target payload).projectId = roadmap.projectId ∧
      (transitioned roadmap target payload).status = target := by
  unfold transitioned
  by_cases hsubmit : payload.transition = .submit
  · rw [hsubmit] at htarget
    simp only [hsubmit, if_true]
    exact ⟨rfl, rfl, (submit_of_draft htarget).2.symm⟩
  · simp only [hsubmit, if_false, applyTransition]
    split
    · exact ⟨rfl, rfl, rfl⟩
    · split <;> exact ⟨rfl, rfl, rfl⟩

theorem draftRevised_row (payload) (roadmap) :
    (draftRevised payload roadmap).id = roadmap.id ∧
      (draftRevised payload roadmap).projectId = roadmap.projectId ∧
      (draftRevised payload roadmap).status =
        if payload.submit then .proposed else roadmap.status := by
  unfold draftRevised
  by_cases hsubmit : payload.submit
  · simp only [hsubmit, if_true, withSummary]
    split <;> exact ⟨rfl, rfl, rfl⟩
  · simp only [hsubmit]
    exact ⟨rfl, rfl, rfl⟩

theorem runRequest_sameRow {writer otherActive request}
    (h : runRequest otherActive tasks session writer request = .ok session') :
    SameRow otherActive tasks session session' := by
  rcases runRequest_cases h with ⟨_, _, hedit⟩ | ⟨payload, _, h⟩ | ⟨payload, _, h⟩ |
    ⟨revisionNo, payload, _, h⟩
  · exact hedit.sameRow otherActive
  · rcases transitionRoadmap_ok h with ⟨hactive, rfl⟩ | ⟨target, htarget, hother, rfl⟩
    · exact ⟨rfl, rfl, Nat.le_refl _, .inl, fun _ hlink => .inl hlink⟩
    obtain ⟨hid, hproject, hstatus⟩ := transitioned_row htarget
    have hlinks : (transitioned session.roadmap target payload).links = session.roadmap.links :=
      congrArg Plan.links (plan_transitioned session.roadmap target payload)
    refine ⟨hid, hproject, Nat.le_refl _, ?_, ?_⟩
    · exact fun hactive => .inr (hother (hstatus.symm.trans hactive))
    · exact fun link hlink => .inl (hlinks ▸ hlink)
  · rcases createProposal_cases h with ⟨hdraft, h⟩ | ⟨hactive, _, revision, _, _, _, _, rfl⟩
    · obtain ⟨_, _, reconciled, hreconciled, rfl⟩ := reviseDraft_ok h
      have hkeeps := reconcileDocument_keeps hreconciled
      obtain ⟨hid, hproject, hstatus⟩ := draftRevised_row payload reconciled.roadmap
      have hlinks : (draftRevised payload reconciled.roadmap).links = reconciled.roadmap.links :=
        congrArg Plan.links (plan_draftRevised payload reconciled.roadmap)
      refine ⟨hid.trans hkeeps.ledger.id, hproject.trans hkeeps.ledger.projectId, hkeeps.fresh, ?_,
        ?_⟩
      · intro hactive
        have hstatus' := hstatus.symm.trans hactive
        split at hstatus'
        · cases hstatus'
        · exact nomatch hdraft.symm.trans (hkeeps.ledger.status.symm.trans hstatus')
      · exact fun link hlink => .inl (hkeeps.links.subset (hlinks ▸ hlink))
    · exact ⟨rfl, rfl, Nat.le_refl _, .inl, fun _ hlink => .inl hlink⟩
  · obtain ⟨hactive, revision, _, _, _, decided, hdecided, rfl⟩ := reviewProposal_ok h
    cases hdecision : payload.decision with
    | requestChanges | reject =>
      rw [hdecision] at hdecided
      cases hdecided
      exact ⟨rfl, rfl, Nat.le_refl _, fun _ => .inl hactive, fun _ hlink => .inl hlink⟩
    | approve =>
      rw [hdecision] at hdecided
      obtain ⟨_, reconciled, hreconciled, rfl⟩ := approveProposal_ok hdecided
      have hkeeps := reconcileDocument_keeps hreconciled
      exact ⟨hkeeps.ledger.id, hkeeps.ledger.projectId, hkeeps.fresh, fun _ => .inl hactive,
        fun link hlink => .inl (hkeeps.links.subset hlink)⟩

end Request

variable {nextId : RowId} {projects : List Uuid} {payload : RoadmapImport} {db : Db}

theorem Session.Good.mono {session : Session} (h : session.Good)
    (hle : session.nextId ≤ nextId) : Session.Good { session with nextId := nextId } :=
  ⟨⟨h.sound.phases.mono hle, h.sound.steps.mono hle, h.sound.graph, h.sound.links⟩, h.ledger⟩

/-- A roadmap no request has been on yet. -/
structure NewRow (nextId : RowId) (session : Session) : Prop where
  good : session.Good
  id : session.roadmap.id = nextId
  fresh : nextId < session.nextId
  status : session.roadmap.status ≠ .active
  links : session.roadmap.links = []

theorem newRoadmap_good (id) (projectId) (title) (objective context) (metadata nextId) :
    Session.Good ⟨newRoadmap id projectId title objective context metadata, nextId⟩ := by
  constructor
  · refine ⟨⟨nodup_nil, nodup_nil, Placed.nil, forall_mem_nil _⟩,
      ⟨nodup_nil, nodup_nil, forall_mem_nil _, fun _ => Placed.nil,
        forall_mem_nil _, forall_mem_nil _, forall_mem_nil _⟩,
      ⟨nodup_nil, forall_mem_nil _, ?_⟩, ⟨forall_mem_nil _, .nil⟩⟩
    exact ⟨fun id => ⟨id, fun _ hwaits => absurd hwaits not_mem_nil⟩⟩
  · refine Ledger.of_noPending nodup_nil ?_ ?_ ?_
    · intro row hrow
      cases hrow
    · intro hstatus
      cases hstatus
    · intro number hnumber
      cases hnumber

theorem createRoadmap_ok {writer payload session}
    (h : createRoadmap nextId projects writer payload = .ok session) : NewRow nextId session := by
  obtain ⟨_, _, h⟩ := bind_ok h
  obtain ⟨_, _, h⟩ := bind_ok h
  obtain ⟨_, _, h⟩ := bind_ok h
  cases h
  exact ⟨newRoadmap_good .., rfl, Nat.lt_succ_self _, nofun, rfl⟩

theorem importRoadmap_cases {writer session}
    (h : importRoadmap nextId projects writer payload = .ok session) :
    roadmapDocumentErrors payload.document = [] ∧ (session = imported nextId payload ∨
        session = { imported nextId payload with
          roadmap := submit (imported nextId payload).roadmap }) := by
  obtain ⟨_, _, h⟩ := bind_ok h
  obtain ⟨_, _, h⟩ := bind_ok h
  obtain ⟨_, hvalid, h⟩ := bind_ok h
  obtain ⟨_, _, h⟩ := bind_ok h
  refine ⟨validated_ok hvalid, ?_⟩
  have hsession := (Except.ok.inj h).symm
  split at hsession
  · exact .inr hsession
  · exact .inl hsession

theorem imported_ok (nextId) (hvalid : roadmapDocumentErrors payload.document = []) :
    NewRow nextId (imported nextId payload) ∧ (imported nextId payload).roadmap.status = .draft := by
  obtain ⟨hledger, _, hlinks, hfresh⟩ := insertDocument_keeps ⟨newRoadmap nextId payload.projectId
    payload.document.title payload.document.objective payload.document.context
    payload.document.metadata, nextId + 1⟩ payload.document
  have hvalid := valid_of_no_errors hvalid
  have hlaid : Laid payload.document (imported nextId payload) :=
    insertDocument_laid hvalid rfl rfl rfl
  have hnone : (imported nextId payload).roadmap.links = [] := hlinks
  have hnew := newRoadmap_good nextId payload.projectId payload.document.title
    payload.document.objective payload.document.context payload.document.metadata (nextId + 1)
  refine ⟨⟨⟨hlaid.sound hvalid ?_, ?_⟩, hledger.id, hfresh, ?_, hnone⟩, hledger.status⟩
  · rw [hnone]
    exact ⟨nofun, .nil⟩
  · exact hnew.ledger.sameLedger hledger nofun
  · show (imported nextId payload).roadmap.status ≠ .active
    rw [show (imported nextId payload).roadmap.status = .draft from hledger.status]
    decide

theorem importRoadmap_ok {writer session}
    (h : importRoadmap nextId projects writer payload = .ok session) : NewRow nextId session := by
  obtain ⟨hvalid, hsession⟩ := importRoadmap_cases h
  obtain ⟨hnew, hdraft⟩ := imported_ok nextId hvalid
  rcases hsession with rfl | rfl
  · exact hnew
  · exact ⟨⟨hnew.good.sound, hnew.good.ledger.submit hdraft⟩, hnew.id, hnew.fresh, nofun, hnew.links⟩

/-! ## The committed rows -/

structure Db.Good (db : Db) : Prop where
  good : ∀ roadmap ∈ db.roadmaps, Session.Good ⟨roadmap, db.nextId⟩
  ids : (db.roadmaps.map (·.id)).Nodup
  fresh : ∀ roadmap ∈ db.roadmaps, roadmap.id < db.nextId
  tasks : ∀ task ∈ db.tasks, task.id < db.nextId
  linked : ∀ roadmap ∈ db.roadmaps, ∀ link ∈ roadmap.links, link.taskId ∈ db.tasks.map (·.id)
  active : ∀ a ∈ db.roadmaps, ∀ b ∈ db.roadmaps, a.status = .active → b.status = .active →
    a.projectId = b.projectId → a.id = b.id

theorem Db.find_ok {roadmapId roadmap}
    (h : db.find roadmapId = .ok roadmap) : roadmap ∈ db.roadmaps ∧ roadmap.id = roadmapId := by
  unfold Db.find at h
  split at h
  · rename_i other hfind
    cases h
    exact ⟨List.mem_of_find?_eq_some hfind, by simpa using List.find?_some hfind⟩
  · cases h

theorem Db.mem_put {session row} (h : row ∈ (db.put session).roadmaps) :
    row = session.roadmap ∨ (row ∈ db.roadmaps ∧ row.id ≠ session.roadmap.id) := by
  obtain ⟨old, hold, rfl⟩ := mem_map.mp h
  split
  · exact .inl rfl
  · rename_i hne
    exact .inr ⟨hold, hne⟩

theorem Db.Good.add {session} (h : db.Good) (hnew : NewRow db.nextId session) :
    (db.add session).Good := by
  have hle : db.nextId ≤ session.nextId := hnew.fresh.le
  have hall : ∀ {P : Roadmap → Prop}, (∀ roadmap ∈ db.roadmaps, P roadmap) → P session.roadmap →
      ∀ roadmap ∈ (db.add session).roadmaps, P roadmap := by
    intro P hold hrow roadmap hmem
    rcases mem_append.mp hmem with hmem | hmem
    · exact hold roadmap hmem
    · exact mem_singleton.mp hmem ▸ hrow
  refine ⟨hall (fun roadmap hmem => (h.good roadmap hmem).mono hle) hnew.good, ?_, ?_, ?_, ?_, ?_⟩
  · show ((db.roadmaps ++ [session.roadmap]).map (·.id)).Nodup
    rw [map_append, map_singleton]
    refine nodup_append.mpr ⟨h.ids, nodup_singleton _, ?_⟩
    intro a ha b hb hab
    obtain ⟨roadmap, hmem, rfl⟩ := mem_map.mp ha
    have hb := mem_singleton.mp hb
    exact absurd (hab.trans (hb.trans hnew.id)) (h.fresh roadmap hmem).ne
  · refine hall (fun roadmap hmem => (h.fresh roadmap hmem).trans_le hle) ?_
    rw [hnew.id]
    exact hnew.fresh
  · exact fun task hmem => (h.tasks task hmem).trans_le hle
  · refine hall h.linked ?_
    rw [hnew.links]
    exact nofun
  · intro a ha b hb hactive hactive' hproject
    rcases mem_append.mp ha with ha | ha
    · rcases mem_append.mp hb with hb | hb
      · exact h.active a ha b hb hactive hactive' hproject
      · rw [mem_singleton.mp hb] at hactive'
        exact absurd hactive' hnew.status
    · rw [mem_singleton.mp ha] at hactive
      exact absurd hactive hnew.status

theorem Db.Good.put {roadmap session added} (h : db.Good) (hmem : roadmap ∈ db.roadmaps)
    (hgood : session.Good)
    (hrow : SameRow (db.otherActive roadmap) (db.tasks ++ added) ⟨roadmap, db.nextId⟩ session)
    (hadded : ∀ task ∈ added, task.id < session.nextId) :
    Db.Good { db.put session with tasks := db.tasks ++ added } := by
  have hle : db.nextId ≤ session.nextId := hrow.fresh
  have hid : session.roadmap.id = roadmap.id := hrow.id
  have hold : ∀ {link : LinkRow}, link.taskId ∈ db.tasks.map (·.id) →
      link.taskId ∈ (db.tasks ++ added).map (·.id) := by
    intro link hlink
    rw [map_append]
    exact mem_append_left _ hlink
  refine ⟨?_, ?_, ?_, ?_, ?_, ?_⟩
  · intro row hrow'
    rcases Db.mem_put hrow' with rfl | ⟨hmem', _⟩
    · exact hgood
    · exact (h.good row hmem').mono hle
  · have hids : (db.put session).roadmaps.map (·.id) = db.roadmaps.map (·.id) := by
      rw [Db.put, map_map]
      apply map_congr_left
      intro row _
      show (if row.id = session.roadmap.id then session.roadmap else row).id = row.id
      split
      · rename_i heq
        exact heq.symm
      · rfl
    show ((db.put session).roadmaps.map (·.id)).Nodup
    rw [hids]
    exact h.ids
  · intro row hrow'
    rcases Db.mem_put hrow' with rfl | ⟨hmem', _⟩
    · rw [hid]
      exact (h.fresh roadmap hmem).trans_le hle
    · exact (h.fresh row hmem').trans_le hle
  · intro task htask
    rcases mem_append.mp htask with htask | htask
    · exact (h.tasks task htask).trans_le hle
    · exact hadded task htask
  · intro row hrow' link hlink
    rcases Db.mem_put hrow' with rfl | ⟨hmem', _⟩
    · rcases hrow.links link hlink with hlink | hlink
      · exact hold (h.linked roadmap hmem link hlink)
      · exact hlink
    · exact hold (h.linked row hmem' link hlink)
  · -- the roadmap that has become active is the only active one
    have hother : ∀ {row : Roadmap}, row ∈ db.roadmaps → row.id ≠ session.roadmap.id →
        row.status = .active → session.roadmap.status = .active →
        row.projectId ≠ session.roadmap.projectId := by
      intro row hmem' hne hactive hactive' hproject
      have hproject' : row.projectId = roadmap.projectId := hproject.trans hrow.projectId
      rcases hrow.active hactive' with hwas | hfree
      · exact hne ((h.active row hmem' roadmap hmem hactive hwas hproject').trans hid.symm)
      · have hne' : row.id ≠ roadmap.id := fun heq => hne (heq.trans hid.symm)
        have := any_eq_false.mp hfree row hmem'
        simp [hproject', hactive, hne'] at this
    intro a ha b hb hactive hactive' hproject
    rcases Db.mem_put ha with rfl | ⟨hmema, hnea⟩
    · rcases Db.mem_put hb with rfl | ⟨hmemb, hneb⟩
      · rfl
      · exact absurd hproject.symm (hother hmemb hneb hactive' hactive)
    · rcases Db.mem_put hb with rfl | ⟨hmemb, hneb⟩
      · exact absurd hproject (hother hmema hnea hactive hactive')
      · exact h.active a hmema b hmemb hactive hactive' hproject

theorem Db.Good.perform {db' writer act} (h : db.Good)
    (hperform : db.perform writer act = .ok db') : db'.Good := by
  cases act with
  | createRoadmap payload =>
    obtain ⟨session, hsession, hperform⟩ := bind_ok hperform
    cases hperform
    exact h.add (createRoadmap_ok hsession)
  | importRoadmap payload =>
    obtain ⟨session, hsession, hperform⟩ := bind_ok hperform
    cases hperform
    exact h.add (importRoadmap_ok hsession)
  | request roadmapId request =>
    obtain ⟨roadmap, hfind, hperform⟩ := bind_ok hperform
    obtain ⟨session, hsession, hperform⟩ := bind_ok hperform
    cases hperform
    obtain ⟨hmem, _⟩ := Db.find_ok hfind
    have hgood := runRequest_good hsession (h.good roadmap hmem)
    have hrow := runRequest_sameRow hsession
    rw [← append_nil db.tasks] at hrow
    have hput := h.put hmem hgood hrow nofun
    rw [append_nil] at hput
    exact hput
  | applyHydration roadmapId payload =>
    obtain ⟨roadmap, hfind, hperform⟩ := bind_ok hperform
    obtain ⟨⟨session, tasks, result⟩, happlied, hperform⟩ := bind_ok hperform
    cases hperform
    obtain ⟨hmem, _⟩ := Db.find_ok hfind
    obtain ⟨_, _, _, planned, hplanned, rfl, rfl, rfl⟩ := applyHydration_ok happlied
    have hgood := h.good roadmap hmem
    refine h.put hmem ⟨hydrated_sound hplanned hgood.sound, ?_⟩ ?_ ?_
    · exact ⟨hgood.ledger.numbers, hgood.ledger.onePending, hgood.ledger.draft,
        hgood.ledger.proposed, hgood.ledger.valid, hgood.ledger.approved⟩
    · refine ⟨rfl, rfl, Nat.le_add_right _ _, .inl, ?_⟩
      intro link hlink
      rcases mem_append.mp hlink with hlink | hlink
      · exact .inl hlink
      · refine .inr ?_
        rw [map_append]
        exact mem_append_right _ (task_of_hydratedLink hlink _)
    · exact fun task htask => (mem_hydratedTasks htask).2
  | taskCreated projectId title description =>
    obtain ⟨task, htask, hperform⟩ := bind_ok hperform
    cases hperform
    rw [addTask_ok htask]
    have hle : db.nextId ≤ db.nextId + 1 := Nat.le_succ _
    refine ⟨fun roadmap hmem => (h.good roadmap hmem).mono hle, h.ids,
      fun roadmap hmem => (h.fresh roadmap hmem).trans_le hle, ?_, ?_, h.active⟩
    · intro row hrow
      rcases mem_append.mp hrow with hrow | hrow
      · exact (h.tasks row hrow).trans_le hle
      · rw [mem_singleton.mp hrow]
        exact Nat.lt_succ_self _
    · intro roadmap hmem link hlink
      rw [map_append]
      exact mem_append_left _ (h.linked roadmap hmem link hlink)
  | taskChanged taskId title description status =>
    cases hperform
    have hids : (db.tasks.map fun task => if task.id = taskId then
        { task with title := title, description := description, status := status }
        else task).map (·.id) = db.tasks.map (·.id) := by
      rw [map_map]
      apply map_congr_left
      intro task _
      show (if task.id = taskId then _ else task : TaskRow).id = task.id
      split <;> rfl
    refine ⟨h.good, h.ids, h.fresh, ?_, ?_, h.active⟩
    · intro task htask
      obtain ⟨old, hold, heq⟩ := mem_map.mp (hids ▸ mem_map_of_mem htask)
      rw [← heq]
      exact h.tasks old hold
    · intro roadmap hmem link hlink
      show link.taskId ∈ (db.tasks.map _).map _
      rw [hids]
      exact h.linked roadmap hmem link hlink

theorem ok_of_toOption {α : Type} {result : Except HttpError α} {a}
    (h : result.toOption = some a) : result = .ok a := by
  cases result with
  | error error => cases h
  | ok value => rw [Option.some.inj h]

theorem Db.step_ok {db' call} (h : db.step call = some db') : db.perform call.1 call.2 = .ok db' :=
  ok_of_toOption h

theorem Db.start_good (projects) : (Db.start projects).Good :=
  ⟨forall_mem_nil _, nodup_nil, forall_mem_nil _, forall_mem_nil _,
    forall_mem_nil _, forall_mem_nil _⟩

/-- **Every reachable state is good.** -/
theorem Reachable.good (h : Reachable db) : db.Good := by
  obtain ⟨projects, calls, hrun⟩ := h
  exact hrun.invariant (fun hgood _ hstep => hgood.perform (Db.step_ok hstep))
    (Db.start_good projects)

/-- What a plan promises its readers. -/
structure Roadmap.PlanInvariant (roadmap : Roadmap) : Prop where
  acyclic : ∀ stepId, ¬ Relation.TransGen (WaitsFor roadmap.deps) stepId stepId
  inside : ∀ dep ∈ roadmap.deps,
    dep.stepId ∈ roadmap.stepIds ∧ dep.dependsOnId ∈ roadmap.stepIds
  phaseKeys : (roadmap.phases.map (·.key)).Nodup
  stepKeys : (roadmap.steps.map (·.key)).Nodup
  phasePositions : (roadmap.phases.map (·.position)).Perm (List.range roadmap.phases.length)
  stepPositions : ∀ phase ∈ roadmap.phases,
    ((roadmap.steps.filter (·.phaseId = phase.id)).map (·.position)).Perm
      (List.range (roadmap.steps.filter (·.phaseId = phase.id)).length)
  criteria : ∀ step ∈ roadmap.steps, ∀ index ∈ step.criteriaChecked,
    index < step.acceptanceCriteria.length

/-- **The plan invariant holds in every reachable state.** -/
theorem plan_invariant {db : Db} (h : Reachable db) {roadmap : Roadmap}
    (hmem : roadmap ∈ db.roadmaps) : roadmap.PlanInvariant := by
  have hsound : roadmap.plan.Sound db.nextId := (h.good.good roadmap hmem).sound
  refine ⟨?_, hsound.graph.inside, hsound.phases.keys, hsound.steps.keys, hsound.phases.positions,
    fun phase _ => hsound.steps.positions phase.id, hsound.steps.criteria⟩
  intro stepId hcycle
  exact hsound.graph.acyclic.transGen.irrefl.irrefl stepId hcycle

/-- An administrator of every project, for runs on fixed inputs. -/
def admin : Writer :=
  { principal := ⟨⟨⟨"machine"⟩, ⟨"user"⟩⟩, .admin, .allProjects⟩
    provenance := ⟨.manual, none⟩
    agent := none }

def plannedStep (key : String) (criteria dependsOn : List String) : StepContent :=
  { key := key, title := key, objective := none, context := none, instructions := none
    acceptanceCriteria := criteria, notes := none, metadata := [], dependsOn := dependsOn
    tasks := [⟨"build", "Build it", none⟩] }

/-- Two phases, three steps in a row. -/
def plannedDocument (title : String) : RoadmapDocument :=
  { title := title, objective := none, context := none, metadata := []
    phases :=
      [⟨"P1", "One", none, [plannedStep "S1" ["tested"] [], plannedStep "S2" [] ["S1"]]⟩,
        ⟨"P2", "Two", none, [plannedStep "S3" [] ["S2"]]⟩]
    exportedAt := none, revisionNo := none }

/-- A draft is imported, a criterion checked and a step deleted. -/
def editedDraft : List (Writer × Act) :=
  [(admin, .importRoadmap ⟨⟨"project"⟩, plannedDocument "Plan", false⟩),
    (admin, .request 0 (.updateStepProgress "S1" ⟨none, false, none, none, some [0]⟩ 1)),
    (admin, .request 0 (.deleteStep "S2" 1))]

theorem plan_invariant_editedDraft : ∃ db roadmap, Reachable db ∧ roadmap ∈ db.roadmaps ∧
    (roadmap.steps.map fun step => (step.key, step.criteriaChecked)) = [("S1", [0]), ("S3", [])] ∧
    roadmap.PlanInvariant := by
  have hrun : (execWithin Db.step Free (Db.start [⟨"project"⟩]) editedDraft).any fun db =>
      db.roadmaps.any fun roadmap => (roadmap.steps.map fun step =>
        (step.key, step.criteriaChecked)) = [("S1", [0]), ("S3", [])] := by decide +kernel
  obtain ⟨db, hdb, hany⟩ := Run.of_any hrun
  obtain ⟨roadmap, hmem, hsteps⟩ := any_eq_true.mp hany
  have hreach : Reachable db := ⟨_, _, hdb⟩
  exact ⟨db, roadmap, hreach, hmem, of_decide_eq_true hsteps, plan_invariant hreach hmem⟩

end StudioOS.Roadmaps
