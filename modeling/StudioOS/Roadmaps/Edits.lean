import StudioOS.Roadmaps.Writes

/-!
# Edits — every plan operation keeps a sound plan

The operations of `roadmap_structure.py` are a content edit, a change of
progress or links, or nothing. None touches the status, the revision
numbers or the revisions by itself; a content edit ends in
`content_changed`.
-/

namespace StudioOS.Roadmaps

open List Rows

/-- What a plan operation of a kind can commit, next to some tasks. -/
inductive Edit (tasks : List TaskRow) (session : Session) : WriteKind → Session → Prop where
  | same {kind} : Edit tasks session kind session
  | content {roadmap nextId} (ledger : session.roadmap.SameLedger roadmap)
      (version : roadmap.version = session.roadmap.version)
      (allowed : writeAllowed session.roadmap.status .content = true)
      (fresh : session.nextId ≤ nextId)
      (links : ∀ link ∈ roadmap.links, link ∈ session.roadmap.links)
      (sound : session.Sound → roadmap.plan.Sound nextId) :
      Edit tasks session .content (commitContent roadmap nextId)
  | progress {roadmap} (ledger : session.roadmap.SameLedger roadmap)
      (version : session.roadmap.version ≤ roadmap.version)
      (allowed : writeAllowed session.roadmap.status .progress = true)
      (tree : roadmap.tree = session.roadmap.tree) (links : ∀ link ∈ roadmap.links,
        link ∈ session.roadmap.links ∨ link.taskId ∈ tasks.map (·.id))
      (sound : session.Sound → roadmap.plan.Sound session.nextId) :
      Edit tasks session .progress ⟨roadmap, session.nextId⟩

theorem plan_contentChanged (roadmap) : (contentChanged roadmap).plan = roadmap.plan := by
  show Roadmap.plan (if _ then _ else _) = _
  split <;> rfl

variable {kind : WriteKind} {expectedVersion : Int} {key : String} {step : StepRow}
  {stepKey : String} {nextId : RowId} {phaseKey : String}

/-- **A plan operation keeps a sound plan.** -/
theorem Edit.sound {tasks : List TaskRow} {session session' : Session}
    (h : Edit tasks session kind session') (hsound : session.Sound) : session'.Sound := by
  cases h with
  | same => exact hsound
  | content _ _ _ _ _ sound =>
    show (contentChanged _).plan.Sound _
    rw [plan_contentChanged]
    exact sound hsound
  | progress _ _ _ _ _ sound => exact sound hsound

section Guard

variable {writer : Writer} {roadmap : Roadmap}

theorem guardWrite_ok (h : guardWrite writer roadmap kind = .ok ()) :
    writeAllowed roadmap.status kind = true := by
  obtain ⟨_, _, h⟩ := bind_ok h
  obtain ⟨_, _, h⟩ := bind_ok h
  split at h
  · cases h
  · rename_i hallowed
    simpa using hallowed

theorem openRoadmap_ok {expectedVersion}
    (h : openRoadmap writer roadmap kind expectedVersion = .ok ()) :
    writeAllowed roadmap.status kind = true := by
  obtain ⟨_, hguard, _⟩ := bind_ok h
  exact guardWrite_ok hguard

theorem progress_of_link {status} (h : writeAllowed status .link = true) :
    writeAllowed status .progress = true := by
  cases status <;> first | rfl | cases h

theorem findPhase_ok {phase} (h : findPhase roadmap key = .ok phase) :
    phase ∈ roadmap.phases ∧ phase.key = key := by
  unfold findPhase at h
  split at h
  · rename_i other hfind
    cases h
    exact phaseByKey_some hfind
  · cases h

theorem findStep_ok (h : findStep roadmap key = .ok step) :
    step ∈ roadmap.steps ∧ step.key = key := by
  unfold findStep at h
  split at h
  · rename_i other hfind
    cases h
    exact stepByKey_some hfind
  · cases h

theorem checkPlan_ok {items}
    (h : checkPlan roadmap stepKey items = .ok ()) : (items.map (·.hydrationKey)).Nodup := by
  unfold checkPlan at h
  split at h
  · cases h
  · rename_i hnodup
    exact not_not.mp hnodup

end Guard

section Operations

variable {tasks : List TaskRow} {session session' : Session} {writer : Writer}

/-! ## Phases -/

theorem createPhase_edit {payload : PhaseCreate}
    (h : createPhase session writer payload = .ok session') :
    Edit tasks session .content session' := by
  obtain ⟨_, hopen, h⟩ := bind_ok h
  obtain ⟨hkey, h⟩ := guard_ok h
  obtain ⟨_, h⟩ := guard_ok h
  cases h
  refine .content ⟨rfl, rfl, rfl, rfl, rfl, rfl⟩ rfl (openRoadmap_ok hopen) (Nat.le_succ _)
    (fun _ hlink => hlink) ?_
  intro hsound
  refine ⟨hsound.phases.append rfl (phaseByKey_none (by simpa using hkey)) rfl, ?_, hsound.graph,
    hsound.links⟩
  refine (hsound.steps.mono (Nat.le_succ _)).of_phases fun id hid => ?_
  rw [show (_ : Plan).phases = session.roadmap.phases ++ [_] from rfl, map_append]
  exact mem_append_left _ hid

theorem updatePhase_edit {payload : PhaseUpdate}
    (h : updatePhase session writer key payload expectedVersion = .ok session') :
    Edit tasks session .content session' := by
  obtain ⟨_, hopen, h⟩ := bind_ok h
  obtain ⟨phase, _, h⟩ := bind_ok h
  obtain ⟨_, _, h⟩ := bind_ok h
  cases h
  refine .content ⟨rfl, rfl, rfl, rfl, rfl, rfl⟩ rfl (openRoadmap_ok hopen) (Nat.le_refl _)
    (fun _ hlink => hlink) ?_
  intro hsound
  refine ⟨hsound.phases.update (fun _ => rfl) (fun _ => rfl) (fun _ => rfl), ?_, hsound.graph,
    hsound.links⟩
  refine hsound.steps.of_phases fun id hid => ?_
  show id ∈ (updatePhaseRow _ _ session.roadmap.phases).map (·.id)
  rw [map_updatePhaseRow]
  · exact hid
  · exact fun _ => rfl

theorem checkPermutation_ok {current ordered} (h : checkPermutation current ordered = .ok ())
    (hnodup : current.Nodup) :
    ordered.Perm current := by
  unfold checkPermutation at h
  split at h
  · rename_i hcheck
    exact (perm_ext_iff_of_nodup hcheck.1 hnodup).mpr fun key => ⟨hcheck.2.1 key, hcheck.2.2 key⟩
  · cases h

theorem filterMap_ids {α : Type} {rows : List α} {keyOf : α → String} {idOf : α → RowId}
    {find : String → Option α} (hfind : ∀ row ∈ rows, find (keyOf row) = some row) :
    (rows.map keyOf).filterMap (fun key => (find key).map idOf) = rows.map idOf := by
  induction rows with
  | nil => rfl
  | cons row rows ih =>
    rw [map_cons, map_cons, filterMap_cons, hfind row (by simp)]
    rw [ih fun other hother => hfind other (.tail _ hother)]
    rfl

theorem reorderPhases_edit {payload : Reorder}
    (h : reorderPhases session writer payload = .ok session') :
    Edit tasks session .content session' := by
  obtain ⟨_, hopen, h⟩ := bind_ok h
  obtain ⟨_, hcheck, h⟩ := bind_ok h
  cases h
  refine .content ⟨rfl, rfl, rfl, rfl, rfl, rfl⟩ rfl (openRoadmap_ok hopen) (Nat.le_refl _)
    (fun _ hlink => hlink) ?_
  intro hsound
  have hperm := phasesInOrder_perm session.roadmap
  have hordered := checkPermutation_ok hcheck ((hperm.map _).nodup_iff.mpr hsound.phases.keys)
  have hids := hordered.filterMap fun key => (session.roadmap.phaseByKey key).map (·.id)
  rw [filterMap_ids fun phase hphase =>
    phaseByKey_of_mem hsound.phases.keys (hperm.mem_iff.mp hphase)] at hids
  refine ⟨hsound.phases.reposition (.refl _) (hids.trans (hperm.map _)).symm, ?_, hsound.graph,
    hsound.links⟩
  refine hsound.steps.of_phases fun id hid => ?_
  show id ∈ (repositionPhases _ session.roadmap.phases).map (·.id)
  rw [map_repositionPhases (fun _ _ => rfl)]
  exact hid

theorem Plan.Sound.cascade (hsound : session.roadmap.plan.Sound nextId) (keep) :
    GraphSound (session.roadmap.steps.filter keep) (session.roadmap.keepSteps keep).deps ∧
      LinksSound (session.roadmap.steps.filter keep) (session.roadmap.keepSteps keep).links := by
  constructor
  · refine hsound.graph.sub filter_sublist ?_
    intro dep hdep
    simpa using (mem_filter.mp hdep).2
  · refine hsound.links.sub filter_sublist ?_
    intro link hlink
    simpa using (mem_filter.mp hlink).2

theorem deletePhase_edit (h : deletePhase session writer key expectedVersion = .ok session') :
    Edit tasks session .content session' := by
  obtain ⟨_, hopen, h⟩ := bind_ok h
  obtain ⟨_, _, h⟩ := bind_ok h
  obtain ⟨phase, hphase, h⟩ := bind_ok h
  obtain ⟨_, h⟩ := guard_ok h
  cases h
  refine .content ⟨rfl, rfl, rfl, rfl, rfl, rfl⟩ rfl (openRoadmap_ok hopen) (Nat.le_refl _)
    (fun _ hlink => mem_of_mem_filter hlink) ?_
  intro hsound
  have hperm := (phasesInOrder_perm session.roadmap).symm.filter (·.id ≠ phase.id)
  have hphases := hsound.phases.reposition filter_sublist (hperm.map (·.id))
  -- the steps whose phase is left are those of the other phases
  have hsteps : ∀ step ∈ session.roadmap.steps,
      decide (step.phaseId ∈ (session.roadmap.phases.filter (·.id ≠ phase.id)).map (·.id)) =
        decide (step.phaseId ≠ phase.id) := by
    intro step hstep
    apply decide_eq_decide.mpr
    constructor
    · intro hmem heq
      obtain ⟨other, hother, hid⟩ := mem_map.mp hmem
      have hne : other.id ≠ phase.id := by simpa using (mem_filter.mp hother).2
      exact hne (hid.trans heq)
    · intro hne
      obtain ⟨other, hother, hid⟩ := mem_map.mp (hsound.steps.parents step hstep)
      exact mem_map.mpr ⟨other, mem_filter.mpr ⟨hother, by simpa [hid] using hne⟩, hid⟩
  obtain ⟨hgraph, hlinks⟩ := hsound.cascade fun step =>
    decide (step.phaseId ∈ (session.roadmap.phases.filter (·.id ≠ phase.id)).map (·.id))
  refine ⟨hphases, ?_, hgraph, hlinks⟩
  have hkeep := hsound.steps.keep
    (repositionPhases ((session.roadmap.phasesInOrder.filter (·.id ≠ phase.id)).map (·.id))
      (session.roadmap.phases.filter (·.id ≠ phase.id))) (fun id => decide (id ≠ phase.id)) ?_
  · have hfilter := filter_congr hsteps
    show StepsSound _ (session.roadmap.steps.filter _) _
    rw [hfilter]
    exact hkeep
  · intro id hid hne
    rw [map_repositionPhases (fun _ _ => rfl)]
    obtain ⟨other, hother, rfl⟩ := mem_map.mp hid
    exact mem_map_of_mem (mem_filter.mpr ⟨hother, hne⟩)

/-! ## Steps -/

theorem mapM_findStep_ok {roadmap : Roadmap} {keys : List String} {targets : List StepRow}
    (h : keys.mapM (findStep roadmap) = .ok targets) :
    targets.map (·.key) = keys ∧ ∀ target ∈ targets, target ∈ roadmap.steps := by
  induction keys generalizing targets with
  | nil =>
    cases h
    simp
  | cons key keys ih =>
    rw [mapM_cons] at h
    obtain ⟨target, htarget, h⟩ := bind_ok h
    obtain ⟨rest, hrest, h⟩ := bind_ok h
    cases h
    obtain ⟨hmem, hkey⟩ := findStep_ok htarget
    obtain ⟨hkeys, hall⟩ := ih hrest
    refine ⟨by rw [map_cons, hkey, hkeys], ?_⟩
    intro other hother
    rcases mem_cons.mp hother with rfl | hother
    · exact hmem
    · exact hall other hother

theorem createStep_edit {payload : StepCreate}
    (h : createStep session writer phaseKey payload = .ok session') :
    Edit tasks session .content session' := by
  obtain ⟨_, hopen, h⟩ := bind_ok h
  obtain ⟨phase, hphase, h⟩ := bind_ok h
  obtain ⟨hkey, h⟩ := guard_ok h
  obtain ⟨_, h⟩ := guard_ok h
  obtain ⟨_, h⟩ := guard_ok h
  obtain ⟨hnodup, h⟩ := guard_ok h
  obtain ⟨_, h⟩ := guard_ok h
  obtain ⟨targets, htargets, h⟩ := bind_ok h
  obtain ⟨_, hplan, h⟩ := bind_ok h
  cases h
  refine .content ⟨rfl, rfl, rfl, rfl, rfl, rfl⟩ rfl (openRoadmap_ok hopen) (Nat.le_succ _)
    (fun _ hlink => hlink) ?_
  intro hsound
  have hkeyNew : payload.content.key ∉ session.roadmap.steps.map (·.key) :=
    stepByKey_none (by simpa using hkey)
  have hplaced : (session.roadmap.stepsOf phase.id).length =
      (session.roadmap.steps.filter (·.phaseId = phase.id)).length :=
    (stepsOf_perm session.roadmap phase.id).length_eq
  have hsteps := hsound.steps.append (newStepRow session.nextId phase.id
      (session.roadmap.stepsOf phase.id).length payload.content) rfl hkeyNew
    (mem_map_of_mem (findPhase_ok hphase).1) hplaced (fun index hindex => nomatch hindex)
    (checkPlan_ok hplan)
  obtain ⟨hkeys, hmem⟩ := mapM_findStep_ok htargets
  have hfresh : session.nextId ∉ session.roadmap.steps.map (·.id) := by
    intro hid
    obtain ⟨step, hstep, heq⟩ := mem_map.mp hid
    exact (hsound.steps.fresh step hstep).ne heq
  have hids : (targets.map (·.id)).Nodup := by
    -- two rows with one id are one row, and the keys differ
    have hnodup := not_not.mp hnodup
    rw [← hkeys] at hnodup
    refine List.Nodup.map_on ?_ (List.Nodup.of_map _ hnodup)
    intro a ha b hb hab
    exact Keyed.eq_of_key hsound.steps.ids (hmem a ha) (hmem b hb) hab
  refine ⟨hsound.phases.mono (Nat.le_succ _), hsteps, ?_, ?_⟩
  · have hgraph := hsound.graph.append (newStepRow session.nextId phase.id
      (session.roadmap.stepsOf phase.id).length payload.content)
      (targets.map fun target => target.id) hfresh ?_ hids
    · rw [map_map] at hgraph
      exact hgraph
    · intro id hid
      obtain ⟨target, htarget, rfl⟩ := mem_map.mp hid
      exact mem_map_of_mem (hmem target htarget)
  · refine hsound.links.of_steps fun id hid => ?_
    show id ∈ (session.roadmap.steps ++ [_]).map fun row : StepRow => row.id
    rw [map_append]
    exact mem_append_left _ hid

theorem updateStep_edit {payload : StepUpdate}
    (h : updateStep session writer key payload expectedVersion = .ok session') :
    Edit tasks session .content session' := by
  obtain ⟨_, hopen, h⟩ := bind_ok h
  obtain ⟨step, hstep, h⟩ := bind_ok h
  obtain ⟨_, _, h⟩ := bind_ok h
  obtain ⟨_, hplan, h⟩ := bind_ok h
  cases h
  refine .content ⟨rfl, rfl, rfl, rfl, rfl, rfl⟩ rfl (openRoadmap_ok hopen) (Nat.le_refl _)
    (fun _ hlink => hlink) ?_
  intro hsound
  have hids : (updateStepRow step.id payload.apply session.roadmap.steps).map (·.id) =
      session.roadmap.steps.map (·.id) := map_updateStepRow (by intro _; rfl) _
  refine ⟨hsound.phases, ?_, hsound.graph.of_steps fun id hid => ?_,
    hsound.links.of_steps fun id hid => ?_⟩
  · refine hsound.steps.update (fun _ => rfl) (fun _ => rfl) (fun _ => rfl) (fun _ => rfl) ?_ ?_
    · intro row hrow _ index hindex
      have hchecked : index ∈ if payload.acceptanceCriteria.any (· ≠ row.acceptanceCriteria) then []
          else row.criteriaChecked := hindex
      split at hchecked
      · cases hchecked
      rename_i hsame
      have hcriteria : (payload.apply row).acceptanceCriteria = row.acceptanceCriteria := by
        show patched payload.acceptanceCriteria row.acceptanceCriteria = _
        cases hpayload : payload.acceptanceCriteria with
        | none => rfl
        | some criteria => simpa [hpayload, patched] using hsame
      rw [hcriteria]
      exact hsound.steps.criteria row hrow index hchecked
    · intro row hrow _
      show ((patched payload.tasks row.taskPlan).map (·.hydrationKey)).Nodup
      cases htasks : payload.tasks with
      | none => exact hsound.steps.plans row hrow
      | some tasks =>
        rw [htasks] at hplan
        exact checkPlan_ok hplan
  · exact hids ▸ hid
  · exact hids ▸ hid

theorem reorderSteps_edit {payload : Reorder}
    (h : reorderSteps session writer phaseKey payload = .ok session') :
    Edit tasks session .content session' := by
  obtain ⟨_, hopen, h⟩ := bind_ok h
  obtain ⟨phase, hphase, h⟩ := bind_ok h
  obtain ⟨_, hcheck, h⟩ := bind_ok h
  cases h
  refine .content ⟨rfl, rfl, rfl, rfl, rfl, rfl⟩ rfl (openRoadmap_ok hopen) (Nat.le_refl _)
    (fun _ hlink => hlink) ?_
  intro hsound
  have hperm := stepsOf_perm session.roadmap phase.id
  have hkeys : ((session.roadmap.stepsOf phase.id).map (·.key)).Nodup :=
    (hperm.map _).nodup_iff.mpr ((filter_sublist.map _).nodup hsound.steps.keys)
  have hids := (checkPermutation_ok hcheck hkeys).filterMap fun key =>
    ((session.roadmap.stepsOf phase.id).find? (·.key = key)).map (·.id)
  rw [filterMap_ids fun step hstep => Keyed.find?_of_mem _ hkeys hstep] at hids
  have hsteps : ∀ ids : List RowId, (repositionSteps ids session.roadmap.steps).map (·.id) =
      session.roadmap.steps.map (·.id) := fun ids => map_repositionSteps (fun _ _ => rfl) _
  refine ⟨hsound.phases, ?_, hsound.graph.of_steps fun id hid => ?_,
    hsound.links.of_steps fun id hid => ?_⟩
  · exact hsound.steps.reposition (.refl _) phase.id (hids.trans (hperm.map _)).symm fun _ _ => rfl
  · exact (hsteps _).symm ▸ hid
  · exact (hsteps _).symm ▸ hid

theorem deleteStep_edit (h : deleteStep session writer key expectedVersion = .ok session') :
    Edit tasks session .content session' := by
  obtain ⟨_, hopen, h⟩ := bind_ok h
  obtain ⟨_, _, h⟩ := bind_ok h
  obtain ⟨step, hstep, h⟩ := bind_ok h
  obtain ⟨_, h⟩ := guard_ok h
  cases h
  refine .content ⟨rfl, rfl, rfl, rfl, rfl, rfl⟩ rfl (openRoadmap_ok hopen) (Nat.le_refl _)
    (fun _ hlink => mem_of_mem_filter hlink) ?_
  intro hsound
  obtain ⟨hgraph, hlinks⟩ := hsound.cascade fun row => decide (row.id ≠ step.id)
  have hperm := (stepsOf_perm session.roadmap step.phaseId).symm.filter (·.id ≠ step.id)
  have hsteps : ∀ ids : List RowId,
      (repositionSteps ids (session.roadmap.steps.filter (·.id ≠ step.id))).map (·.id) =
        (session.roadmap.steps.filter (·.id ≠ step.id)).map (·.id) :=
    fun ids => map_repositionSteps (fun _ _ => rfl) _
  refine ⟨hsound.phases, ?_, hgraph.of_steps fun id hid => ?_, hlinks.of_steps fun id hid => ?_⟩
  · refine hsound.steps.reposition filter_sublist step.phaseId ?_ fun other hother => ?_
    · rw [filter_filter]
      rw [filter_filter] at hperm
      have hfilter : session.roadmap.steps.filter (fun row =>
          decide (row.phaseId = step.phaseId) && decide (row.id ≠ step.id)) =
          session.roadmap.steps.filter (fun row =>
            decide (row.id ≠ step.id) && decide (row.phaseId = step.phaseId)) :=
        filter_congr fun row _ => Bool.and_comm _ _
      show ((session.roadmap.steps.filter _).map _).Perm _
      rw [hfilter]
      exact hperm.map (·.id)
    · rw [filter_filter]
      apply filter_congr
      intro row hrow
      by_cases hphase : row.phaseId = other
      · have hne : row.id ≠ step.id := by
          intro heq
          have := Keyed.eq_of_key hsound.steps.ids hrow (findStep_ok hstep).1 heq
          exact hother (hphase.symm.trans (congrArg StepRow.phaseId this))
        simp [hphase, hne]
      · simp [hphase]
  · exact (hsteps _).symm ▸ hid
  · exact (hsteps _).symm ▸ hid

theorem tree_of_authored {roadmap roadmap' : Roadmap} (header : roadmap.SameHeader roadmap')
    (phases : roadmap'.phases = roadmap.phases) (deps : roadmap'.deps = roadmap.deps)
    (steps : roadmap'.steps.map (·.authored) = roadmap.steps.map (·.authored)) :
    roadmap'.tree = roadmap.tree := by
  rw [Roadmap.tree, Roadmap.tree, header.title, header.objective, header.context, header.metadata,
    phases, deps, steps]

theorem updateStepProgress_edit {payload : StepProgressUpdate}
    (h : updateStepProgress session writer key payload expectedVersion = .ok session') :
    Edit tasks session .progress session' := by
  obtain ⟨_, hopen, h⟩ := bind_ok h
  obtain ⟨step, hstep, h⟩ := bind_ok h
  obtain ⟨_, _, h⟩ := bind_ok h
  obtain ⟨hrange, h⟩ := guard_ok h
  cases h
  refine .progress ⟨rfl, rfl, rfl, rfl, rfl, rfl⟩ ?_ (openRoadmap_ok hopen) ?_
    (fun _ hlink => .inl hlink) ?_
  · show session.roadmap.version ≤ if payload.moves step then _ else _
    split <;> omega
  · exact tree_of_authored ⟨rfl, rfl, rfl, rfl⟩ rfl rfl (map_updateStepRow (by intro _; rfl) _)
  intro hsound
  have hids : (updateStepRow step.id payload.apply session.roadmap.steps).map (·.id) =
      session.roadmap.steps.map (·.id) := map_updateStepRow (by intro _; rfl) _
  refine ⟨hsound.phases, ?_, hsound.graph.of_steps fun id hid => ?_,
    hsound.links.of_steps fun id hid => ?_⟩
  · refine hsound.steps.update (fun _ => rfl) (fun _ => rfl) (fun _ => rfl) (fun _ => rfl) ?_
      (fun row hrow _ => hsound.steps.plans row hrow)
    intro row hrow hid index hindex
    obtain rfl := Keyed.eq_of_key hsound.steps.ids hrow (findStep_ok hstep).1 hid
    have hchecked :
      index ∈ (payload.criteriaChecked.map fun checked => checked.insertionSort (· ≤ ·)).getD
        row.criteriaChecked := hindex
    cases hpayload : payload.criteriaChecked with
    | none =>
      rw [hpayload] at hchecked
      exact hsound.steps.criteria row hrow index hchecked
    | some checked =>
      rw [hpayload] at hchecked hrange
      have hmem := (perm_insertionSort _ checked).mem_iff.mp hchecked
      have hall : ∀ index ∈ checked, index < row.acceptanceCriteria.length := by
        simpa using hrange
      exact hall index hmem
  · exact hids ▸ hid
  · exact hids ▸ hid

/-! ## Dependencies -/

theorem nodes_withEdge (stepKey targetKey) (edges) :
    CycleSearch.Graph.nodes (withEdge stepKey targetKey edges) = CycleSearch.Graph.nodes edges := by
  rw [CycleSearch.Graph.nodes, withEdge, map_map]
  apply map_congr_left
  intro edge _
  show (if edge.1 = stepKey then _ else edge : String × List String).1 = edge.1
  split <;> rfl

theorem mem_withEdge {targetKey target targets edges} (hentry : (key, targets) ∈ edges)
    (htarget : target ∈ targets ∨ (key = stepKey ∧ target = targetKey)) :
    ∃ targets, (key, targets) ∈ withEdge stepKey targetKey edges ∧ target ∈ targets := by
  have hmem := mem_map_of_mem
    (f := fun edge => if edge.1 = stepKey then (edge.1, edge.2 ++ [targetKey]) else edge) hentry
  by_cases hkey : key = stepKey
  · refine ⟨targets ++ [targetKey], ?_, ?_⟩
    · simpa [hkey, withEdge] using hmem
    · rcases htarget with htarget | ⟨_, rfl⟩
      · exact mem_append_left _ htarget
      · exact mem_append_right _ (mem_singleton_self _)
  · refine ⟨targets, ?_, ?_⟩
    · simpa [hkey, withEdge] using hmem
    · rcases htarget with htarget | ⟨heq, _⟩
      · exact htarget
      · exact absurd heq hkey

theorem GraphSound.addEdge {roadmap : Roadmap}
    (hsound : roadmap.plan.Sound nextId) {target : StepRow} (hstep : step ∈ roadmap.steps)
    (htarget : target ∈ roadmap.steps) (hnew : ¬ WaitsFor roadmap.deps target.id step.id)
    (hcycle : findDependencyCycle (withEdge step.key target.key roadmap.edges) = none) :
    GraphSound roadmap.steps (roadmap.deps ++ [⟨step.id, target.id⟩]) := by
  have hperm := stepsInOrder_perm roadmap
  have hids := hsound.steps.ids
  refine ⟨?_, ?_, ?_⟩
  · refine nodup_append.mpr ⟨hsound.graph.edges, nodup_singleton _, ?_⟩
    rintro a ha b hb rfl
    obtain rfl := mem_singleton.mp hb
    exact hnew ha
  · intro dep hdep
    rcases mem_append.mp hdep with hdep | hdep
    · exact hsound.graph.inside dep hdep
    · obtain rfl := mem_singleton.mp hdep
      exact ⟨mem_map_of_mem hstep, mem_map_of_mem htarget⟩
  have hgraph := CycleSearch.findCycle_none hcycle
  have hnodes : CycleSearch.Graph.nodes (withEdge step.key target.key roadmap.edges) =
      roadmap.stepsInOrder.map (·.key) := by
    rw [nodes_withEdge, CycleSearch.Graph.nodes, Roadmap.edges, map_map]
    rfl
  have hkeys := (hperm.map (·.key)).nodup_iff.mpr hsound.steps.keys
  refine Subrelation.wf ?_ (InvImage.wf roadmap.keyOf hgraph)
  intro targetId stepId hwaits
  -- the edge by id, as the edge by key that the search has followed
  obtain ⟨row, hrow, rfl, other, hother, rfl, hedge⟩ : ∃ row ∈ roadmap.steps, row.id = stepId ∧
      ∃ other ∈ roadmap.steps, other.id = targetId ∧
        (other.key ∈ roadmap.dependsOnKeys row ∨
          (row.key = step.key ∧ other.key = target.key)) := by
    rcases mem_append.mp hwaits with hold | hadded
    · obtain ⟨row, hrow, hid⟩ := mem_map.mp (hsound.graph.inside _ hold).1
      obtain ⟨other, hother, hid'⟩ := mem_map.mp (hsound.graph.inside _ hold).2
      refine ⟨row, hrow, hid, other, hother, hid', .inl ?_⟩
      refine (mem_dependsOnKeys hids hsound.graph).mpr ⟨other, hother, ?_, rfl⟩
      rw [hid, hid']
      exact hold
    · cases mem_singleton.mp hadded
      exact ⟨step, hstep, rfl, target, htarget, rfl, .inr ⟨rfl, rfl⟩⟩
  show CycleSearch.Graph.Edge _ (roadmap.keyOf other.id) (roadmap.keyOf row.id)
  rw [keyOf_of_mem hids hrow, keyOf_of_mem hids hother]
  have hentry : (row.key, roadmap.dependsOnKeys row) ∈ roadmap.edges :=
    mem_map.mpr ⟨row, hperm.mem_iff.mpr hrow, rfl⟩
  obtain ⟨targets, hmem, hin⟩ := mem_withEdge hentry hedge
  refine CycleSearch.Graph.edge_of_mem (by rw [hnodes]; exact hkeys) hmem hin ?_
  rw [hnodes]
  exact mem_map_of_mem (hperm.mem_iff.mpr hother)

theorem addDependency_edit {payload} (h : addDependency session writer payload = .ok session') :
    Edit tasks session .content session' := by
  obtain ⟨_, hopen, h⟩ := bind_ok h
  obtain ⟨step, hstep, h⟩ := bind_ok h
  obtain ⟨target, htarget, h⟩ := bind_ok h
  obtain ⟨_, h⟩ := guard_ok h
  split at h
  · cases h
    exact .same
  rename_i hnew
  obtain ⟨_, h⟩ := guard_ok h
  split at h
  · cases h
  rename_i hcycle
  cases h
  refine .content ⟨rfl, rfl, rfl, rfl, rfl, rfl⟩ rfl (openRoadmap_ok hopen) (Nat.le_refl _)
    (fun _ hlink => hlink) ?_
  intro hsound
  have hwaits : ¬ WaitsFor session.roadmap.deps target.id step.id :=
    fun hwaits => hnew (mem_targetsOf.mpr hwaits)
  exact ⟨hsound.phases, hsound.steps,
    GraphSound.addEdge hsound (findStep_ok hstep).1 (findStep_ok htarget).1 hwaits hcycle,
    hsound.links⟩

theorem removeDependency_edit {payload}
    (h : removeDependency session writer payload = .ok session') :
    Edit tasks session .content session' := by
  obtain ⟨_, hopen, h⟩ := bind_ok h
  obtain ⟨step, _, h⟩ := bind_ok h
  obtain ⟨target, _, h⟩ := bind_ok h
  split at h
  · cases h
    exact .same
  cases h
  refine .content ⟨rfl, rfl, rfl, rfl, rfl, rfl⟩ rfl (openRoadmap_ok hopen) (Nat.le_refl _)
    (fun _ hlink => hlink) ?_
  intro hsound
  refine ⟨hsound.phases, hsound.steps, ?_, hsound.links⟩
  exact hsound.graph.sub filter_sublist fun dep hdep =>
    hsound.graph.inside dep (mem_of_mem_filter hdep)

theorem linkChanged_sound (roadmap : Roadmap) (h : roadmap.plan.Sound nextId)
    (stepId : RowId) : (roadmap.linkChanged stepId).plan.Sound nextId := by
  have hids : (roadmap.linkChanged stepId).steps.map (·.id) = roadmap.steps.map (·.id) :=
    map_updateStepRow (by intro _; rfl) _
  refine ⟨h.phases, ?_, h.graph.of_steps fun id hid => hids ▸ hid,
    h.links.of_steps fun id hid => hids ▸ hid⟩
  exact h.steps.update (fun _ => rfl) (fun _ => rfl) (fun _ => rfl) (fun _ => rfl)
    (fun row hrow _ => h.steps.criteria row hrow) (fun row hrow _ => h.steps.plans row hrow)

theorem linkTask_edit {task : Option TaskRow}
    (htask : ∀ row, task = some row → row.id ∈ tasks.map (·.id))
    (h : linkTask session writer key task = .ok session') :
    Edit tasks session .progress session' := by
  obtain ⟨_, hopen, h⟩ := bind_ok h
  obtain ⟨step, hstep, h⟩ := bind_ok h
  cases task with
  | none => cases h
  | some task =>
    obtain ⟨_, h⟩ := guard_ok h
    split at h
    · cases h
      exact .same
    obtain ⟨_, h⟩ := guard_ok h
    cases h
    refine .progress ⟨rfl, rfl, rfl, rfl, rfl, rfl⟩ ?_ (progress_of_link (openRoadmap_ok hopen))
      ?_ ?_ ?_
    · show session.roadmap.version ≤ session.roadmap.version + 1
      omega
    · exact tree_of_authored ⟨rfl, rfl, rfl, rfl⟩ rfl rfl (map_updateStepRow (by intro _; rfl) _)
    · intro link hlink
      rcases mem_append.mp hlink with hlink | hlink
      · exact .inl hlink
      · rw [mem_singleton.mp hlink]
        exact .inr (htask task rfl)
    intro hsound
    refine linkChanged_sound ({ session.roadmap with
      links := session.roadmap.links ++ [(⟨step.id, task.id, none⟩ : LinkRow)] }) ?_ step.id
    refine ⟨hsound.phases, hsound.steps, hsound.graph, ?_⟩
    -- a manual link has no hydration key
    refine hsound.links.append (mem_map_of_mem (findStep_ok hstep).1) ?_
    exact fun old _ _ hkey => hkey

theorem unlinkTask_edit {taskId : RowId} (h : unlinkTask session writer key taskId = .ok session') :
    Edit tasks session .progress session' := by
  obtain ⟨_, hopen, h⟩ := bind_ok h
  obtain ⟨step, hstep, h⟩ := bind_ok h
  split at h
  · cases h
    exact .same
  cases h
  refine .progress ⟨rfl, rfl, rfl, rfl, rfl, rfl⟩ ?_ (progress_of_link (openRoadmap_ok hopen)) ?_
    (fun _ hlink => .inl (mem_of_mem_filter hlink)) ?_
  · show session.roadmap.version ≤ session.roadmap.version + 1
    omega
  · exact tree_of_authored ⟨rfl, rfl, rfl, rfl⟩ rfl rfl (map_updateStepRow (by intro _; rfl) _)
  intro hsound
  refine linkChanged_sound ({ session.roadmap with
    links := session.roadmap.links.filter fun link =>
      !(link.stepId = step.id && link.taskId = taskId) }) ?_ step.id
  refine ⟨hsound.phases, hsound.steps, hsound.graph, ?_⟩
  exact hsound.links.sub filter_sublist fun link hlink =>
    hsound.links.inside link (mem_of_mem_filter hlink)

end Operations

end StudioOS.Roadmaps
