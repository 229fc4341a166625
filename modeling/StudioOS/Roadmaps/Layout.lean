import StudioOS.Roadmaps.Documents

/-!
# Layout — a plan that is a document

The rows of a plan LAID OUT as a document: one row for every phase and step,
no other, and the dependencies of the document.
-/

namespace StudioOS.Roadmaps

open List Option Rows

/-- The plan is that of the document. -/
structure Laid (document : RoadmapDocument) (session : Session) : Prop where
  writing : Writing document.phases.zipIdx document.entries session
  phases : ∀ row ∈ session.roadmap.phases, row.key ∈ document.phases.map (·.key)
  steps : ∀ row ∈ session.roadmap.steps, row.key ∈ document.steps.map (·.key)
  deps : session.roadmap.deps = documentDeps session.roadmap.steps document

section Keys

theorem zipIdx_keys (phases : List PhaseContent) :
    phases.zipIdx.map (·.1.key) = phases.map (·.key) := by
  have hmap : phases.zipIdx.map (·.1.key) = (phases.zipIdx.map (·.1)).map (·.key) := by
    rw [List.map_map]
    rfl
  rw [hmap]
  simp

theorem entries_keys (document : RoadmapDocument) :
    document.entries.map (·.content.key) = document.steps.map (·.key) := by
  rw [← document.entries_content, List.map_map]
  rfl

end Keys

section Along

variable {document : RoadmapDocument} {session : Session}

theorem Laid.phaseRows (h : Laid document session) (hvalid : document.Valid) :
    ∃ laid, session.roadmap.phases.Perm laid ∧
      List.Forall₂ (fun entry row => PhaseRow.Shows row entry) document.phases.zipIdx laid := by
  refine Keyed.exists_perm_forall₂ (fun row : PhaseRow => row.key)
    (fun entry : PhaseContent × Nat => entry.1.key) ?_ h.writing.phaseKeys
    (fun entry row hshows => hshows.key) h.writing.phases ?_
  · rw [zipIdx_keys]
    exact hvalid.phaseKeys
  · intro row hrow
    rw [zipIdx_keys]
    exact h.phases row hrow

theorem Laid.stepRows (h : Laid document session) (hvalid : document.Valid) :
    ∃ laid, session.roadmap.steps.Perm laid ∧
      List.Forall₂ (fun entry row => StepRow.Shows row session.roadmap.phases entry)
        document.entries laid := by
  refine Keyed.exists_perm_forall₂ (fun row : StepRow => row.key)
    (fun entry : StepEntry => entry.content.key) ?_ h.writing.stepKeys
    (fun entry row hshows => hshows.key) h.writing.steps ?_
  · rw [entries_keys]
    exact hvalid.stepKeys
  · intro row hrow
    rw [entries_keys]
    exact h.steps row hrow

theorem Laid.stepRowsOf (h : Laid document session) (hvalid : document.Valid) {phaseIn}
    (hphaseIn : phaseIn ∈ document.phases) {phase} (hphase : phase ∈ session.roadmap.phases)
    (hkey : phase.key = phaseIn.key) :
    ∃ laid, (session.roadmap.steps.filter (·.phaseId = phase.id)).Perm laid ∧
      List.Forall₂ (fun entry row => StepRow.Shows row session.roadmap.phases entry)
        phaseIn.entries laid := by
  obtain ⟨laid, hperm, hforall⟩ := h.stepRows hvalid
  refine ⟨laid.filter (·.phaseId = phase.id), hperm.filter _, ?_⟩
  rw [← entries_filter hvalid.phaseKeys hphaseIn]
  -- the id of the phase selects the rows its key selects the entries of
  have hsame : ∀ {entry : StepEntry} {row : StepRow},
      StepRow.Shows row session.roadmap.phases entry →
      (entry.phaseKey = phaseIn.key ↔ row.phaseId = phase.id) := by
    intro entry row hshows
    obtain ⟨parent, hparent, hparentKey, hparentId⟩ := hshows.phase
    rw [← hparentKey, ← hparentId, ← hkey]
    constructor
    · intro heq
      rw [Keyed.eq_of_key h.writing.phaseKeys hparent hphase heq]
    · intro heq
      rw [Keyed.eq_of_key h.writing.phaseIds hparent hphase heq]
  exact rel_filter (fun entry row hshows => by simpa using hsame hshows) hforall

theorem Laid.parent (h : Laid document session) {row} (hrow : row ∈ session.roadmap.steps) :
    ∃ entry ∈ document.entries, StepRow.Shows row session.roadmap.phases entry := by
  have hkey := h.steps row hrow
  rw [← entries_keys] at hkey
  obtain ⟨entry, hentry, heq⟩ := List.mem_map.mp hkey
  obtain ⟨row', hrow', hshows⟩ := h.writing.steps entry hentry
  obtain rfl := Keyed.eq_of_key h.writing.stepKeys hrow hrow' (heq.symm.trans hshows.key.symm)
  exact ⟨entry, hentry, hshows⟩

end Along

section Dependencies

variable {document : RoadmapDocument} {steps : List StepRow}

theorem mem_documentDeps (hkeys : (steps.map (·.key)).Nodup) {row target} (hrow : row ∈ steps)
    (htarget : target ∈ steps) (hids : (steps.map (·.id)).Nodup) :
    WaitsFor (documentDeps steps document) target.id row.id ↔
      DependsOn document.steps target.key row.key := by
  have hfind : ∀ {key : String} {id : RowId},
      (steps.find? (·.key = key)).map (·.id) = some id ↔
        ∃ step ∈ steps, step.key = key ∧ step.id = id := by
    intro key id
    constructor
    · intro h
      obtain ⟨step, hstep, rfl⟩ := map_eq_some_iff.mp h
      exact ⟨step, List.mem_of_find?_eq_some hstep, by simpa using List.find?_some hstep, rfl⟩
    · rintro ⟨step, hstep, rfl, rfl⟩
      rw [Keyed.find?_of_mem _ hkeys hstep]
      rfl
  show (⟨row.id, target.id⟩ : DependencyRow) ∈ document.steps.flatMap _ ↔ _
  rw [mem_flatMap]
  constructor
  · rintro ⟨stepIn, hstepIn, hmem⟩
    obtain ⟨dependency, hdependency, hsome⟩ := mem_filterMap.mp hmem
    obtain ⟨stepId, hstepId, hsome⟩ := bind_eq_some_iff.mp hsome
    obtain ⟨targetId, htargetId, heq⟩ := map_eq_some_iff.mp hsome
    cases heq
    obtain ⟨row', hrow', hkey, hid⟩ := hfind.mp hstepId
    obtain ⟨target', htarget', hkey', hid'⟩ := hfind.mp htargetId
    obtain rfl := Keyed.eq_of_key hids hrow' hrow hid
    obtain rfl := Keyed.eq_of_key hids htarget' htarget hid'
    exact ⟨stepIn, hstepIn, hkey.symm, hkey' ▸ hdependency⟩
  · rintro ⟨stepIn, hstepIn, hkey, hdependency⟩
    refine ⟨stepIn, hstepIn, mem_filterMap.mpr ⟨target.key, hdependency, ?_⟩⟩
    show ((steps.find? (·.key = stepIn.key)).map (·.id)).bind _ = _
    rw [hfind.mpr ⟨row, hrow, hkey.symm, rfl⟩]
    show ((steps.find? (·.key = target.key)).map (·.id)).map _ = _
    rw [hfind.mpr ⟨target, htarget, rfl, rfl⟩]
    rfl

theorem inside_documentDeps {dep} (h : dep ∈ documentDeps steps document) :
    dep.stepId ∈ steps.map (·.id) ∧ dep.dependsOnId ∈ steps.map (·.id) := by
  have hfind : ∀ {key : String} {id : RowId},
      (steps.find? (·.key = key)).map (·.id) = some id → id ∈ steps.map (·.id) := by
    intro key id h
    obtain ⟨step, hstep, rfl⟩ := map_eq_some_iff.mp h
    exact List.mem_map_of_mem (List.mem_of_find?_eq_some hstep)
  obtain ⟨stepIn, _, hmem⟩ := mem_flatMap.mp h
  obtain ⟨dependency, _, hsome⟩ := mem_filterMap.mp hmem
  obtain ⟨stepId, hstepId, hsome⟩ := bind_eq_some_iff.mp hsome
  obtain ⟨targetId, htargetId, heq⟩ := map_eq_some_iff.mp hsome
  cases heq
  exact ⟨hfind hstepId, hfind htargetId⟩

theorem documentDeps_sound (hvalid : document.Valid) (hkeys : (steps.map (·.key)).Nodup)
    (hids : (steps.map (·.id)).Nodup) : GraphSound steps (documentDeps steps document) := by
  have hfind : ∀ {key : String} {id : RowId},
      (steps.find? (·.key = key)).map (·.id) = some id →
      ∃ step ∈ steps, step.key = key ∧ step.id = id := by
    intro key id h
    obtain ⟨step, hstep, rfl⟩ := map_eq_some_iff.mp h
    exact ⟨step, List.mem_of_find?_eq_some hstep, by simpa using List.find?_some hstep, rfl⟩
  -- one id is found under one key
  have hinj : ∀ {key key' : String} {id : RowId},
      (steps.find? (·.key = key)).map (·.id) = some id →
      (steps.find? (·.key = key')).map (·.id) = some id → key = key' := by
    intro key key' id h h'
    obtain ⟨step, hstep, rfl, hid⟩ := hfind h
    obtain ⟨step', hstep', rfl, hid'⟩ := hfind h'
    rw [Keyed.eq_of_key hids hstep hstep' (hid.trans hid'.symm)]
  refine ⟨?_, fun dep hdep => inside_documentDeps hdep, ?_⟩
  · refine nodup_flatMap.mpr ⟨?_, ?_⟩
    · intro stepIn hstepIn
      refine (hvalid.dependencies stepIn hstepIn).filterMap ?_
      intro a b dep ha hb
      obtain ⟨_, _, ha⟩ := bind_eq_some_iff.mp ha
      obtain ⟨_, hida, heqa⟩ := map_eq_some_iff.mp ha
      obtain ⟨_, _, hb⟩ := bind_eq_some_iff.mp hb
      obtain ⟨_, hidb, heqb⟩ := map_eq_some_iff.mp hb
      subst heqa
      cases heqb
      exact hinj hida hidb
    · refine (pairwise_map.mp hvalid.stepKeys).imp ?_
      intro stepIn stepIn' hne dep hdep hdep'
      obtain ⟨_, _, hdep⟩ := mem_filterMap.mp hdep
      obtain ⟨_, hid, hdep⟩ := bind_eq_some_iff.mp hdep
      obtain ⟨_, _, rfl⟩ := map_eq_some_iff.mp hdep
      obtain ⟨_, _, hdep'⟩ := mem_filterMap.mp hdep'
      obtain ⟨_, hid', hdep'⟩ := bind_eq_some_iff.mp hdep'
      obtain ⟨_, _, heq⟩ := map_eq_some_iff.mp hdep'
      cases heq
      exact hne (hinj hid hid')
  · have hkeyOf : ∀ {step : StepRow}, step ∈ steps →
        ((steps.find? (·.id = step.id)).map (·.key)).getD "" = step.key := by
      intro step hstep
      rw [Keyed.find?_of_mem _ hids hstep]
      rfl
    refine Subrelation.wf ?_
      (InvImage.wf (fun id => ((steps.find? (·.id = id)).map (·.key)).getD "") hvalid.acyclic)
    intro targetId stepId hwaits
    obtain ⟨hstepId, htargetId⟩ := inside_documentDeps hwaits
    obtain ⟨step, hstep, rfl⟩ := List.mem_map.mp hstepId
    obtain ⟨target, htarget, rfl⟩ := List.mem_map.mp htargetId
    show DependsOn document.steps (((steps.find? (·.id = target.id)).map (·.key)).getD "")
      (((steps.find? (·.id = step.id)).map (·.key)).getD "")
    rw [hkeyOf hstep, hkeyOf htarget]
    exact (mem_documentDeps hkeys hstep htarget hids).mp hwaits

end Dependencies

theorem Laid.sound {document session} (h : Laid document session) (hvalid : document.Valid)
    (hlinks : LinksSound session.roadmap.steps session.roadmap.links) : session.Sound := by
  have hphases : PhasesSound session.roadmap.phases session.nextId := by
    obtain ⟨laid, hperm, hforall⟩ := h.phaseRows hvalid
    refine ⟨h.writing.phaseIds, h.writing.phaseKeys, ?_, h.writing.phaseFresh⟩
    exact (Placed.of_zipIdx hforall fun _ _ hshows => hshows.position).perm hperm.symm
  refine ⟨hphases, ?_, ?_, hlinks⟩
  · refine ⟨h.writing.stepIds, h.writing.stepKeys, ?_, ?_, h.writing.criteria, ?_,
      h.writing.stepFresh⟩
    · intro row hrow
      obtain ⟨entry, _, hshows⟩ := h.parent hrow
      obtain ⟨phase, hphase, _, hid⟩ := hshows.phase
      exact List.mem_map.mpr ⟨phase, hphase, hid⟩
    · intro phaseId
      by_cases hparent : phaseId ∈ session.roadmap.phases.map (·.id)
      · obtain ⟨phase, hphase, rfl⟩ := List.mem_map.mp hparent
        obtain ⟨phaseIn, hphaseIn, hkey⟩ := List.mem_map.mp (h.phases phase hphase)
        obtain ⟨laid, hperm, hforall⟩ := h.stepRowsOf hvalid hphaseIn hphase hkey.symm
        refine Placed.perm ?_ hperm.symm
        rw [PhaseContent.entries, List.forall₂_map_left_iff] at hforall
        exact Placed.of_zipIdx hforall fun _ _ hshows => hshows.position
      · have hnil : session.roadmap.steps.filter (·.phaseId = phaseId) = [] := by
          apply filter_eq_nil_iff.mpr
          intro row hrow heq
          obtain ⟨entry, _, hshows⟩ := h.parent hrow
          obtain ⟨phase, hphase, _, hid⟩ := hshows.phase
          have : row.phaseId = phaseId := by simpa using heq
          exact hparent (List.mem_map.mpr ⟨phase, hphase, hid.trans this⟩)
        show Placed _ (session.roadmap.steps.filter _)
        rw [hnil]
        exact Placed.nil
    · intro row hrow
      obtain ⟨entry, hentry, hshows⟩ := h.parent hrow
      have htasks : row.taskPlan = entry.content.tasks := congrArg StepContent.tasks hshows.content
      rw [htasks]
      refine hvalid.hydrationKeys entry.content ?_
      rw [← document.entries_content]
      exact List.mem_map_of_mem hentry
  · show GraphSound session.roadmap.steps session.roadmap.deps
    rw [h.deps]
    exact documentDeps_sound hvalid h.writing.stepKeys h.writing.stepIds

structure OnlyRows (session session' : Session) : Prop where
  ledger : session.roadmap.SameLedger session'.roadmap
  header : session.roadmap.SameHeader session'.roadmap
  version : session'.roadmap.version = session.roadmap.version
  deps : session'.roadmap.deps = session.roadmap.deps
  links : session'.roadmap.links = session.roadmap.links
  fresh : session.nextId ≤ session'.nextId

theorem OnlyRows.refl (session) : OnlyRows session session :=
  ⟨⟨rfl, rfl, rfl, rfl, rfl, rfl⟩, ⟨rfl, rfl, rfl, rfl⟩, rfl, rfl, rfl, Nat.le_refl _⟩

variable {session' : Session}

theorem OnlyRows.trans {session session''} (h : OnlyRows session session')
    (h' : OnlyRows session' session'') : OnlyRows session session'' :=
  ⟨⟨h'.ledger.id.trans h.ledger.id, h'.ledger.projectId.trans h.ledger.projectId,
      h'.ledger.status.trans h.ledger.status, h'.ledger.revisionNo.trans h.ledger.revisionNo,
      h'.ledger.approvedRevisionNo.trans h.ledger.approvedRevisionNo,
      h'.ledger.revisions.trans h.ledger.revisions⟩,
    ⟨h'.header.title.trans h.header.title, h'.header.objective.trans h.header.objective,
      h'.header.context.trans h.header.context, h'.header.metadata.trans h.header.metadata⟩,
    h'.version.trans h.version, h'.deps.trans h.deps, h'.links.trans h.links,
      h.fresh.trans h'.fresh⟩

theorem OnlyRows.foldl {α : Type} {f} (hf : ∀ session a, OnlyRows session (f session a))
    (entries : List α) (session : Session) :
    OnlyRows session (entries.foldl f session) := by
  induction entries generalizing session with
  | nil => exact .refl session
  | cons entry entries ih => exact (hf session entry).trans (ih _)

theorem onlyRows_reconcileSteps (session) (phaseIn) :
    OnlyRows session (reconcileSteps session phaseIn) := by
  unfold reconcileSteps
  split
  · exact .refl session
  · refine OnlyRows.foldl (fun session stepIn => ?_) _ _
    exact ⟨⟨rfl, rfl, rfl, rfl, rfl, rfl⟩, ⟨rfl, rfl, rfl, rfl⟩, rfl, rfl, rfl, Nat.le_succ _⟩

theorem writing_reconcile {session : Session} {document : RoadmapDocument} (hvalid : document.Valid)
    (h : session.Sound) : Writing document.phases.zipIdx document.entries
      (document.phases.foldl reconcileSteps (document.phases.zipIdx.foldl
        (fun session phaseIn => reconcilePhase session phaseIn.1 phaseIn.2) session)) := by
  have hphases := h.writing.reconcilePhases document.phases.zipIdx (by
    rw [nil_append, zipIdx_keys]
    exact hvalid.phaseKeys)
  have hsteps := hphases.reconcileAllSteps document.phases ?_ ?_
  · exact hsteps
  · intro phaseIn hphaseIn
    rw [nil_append, zipIdx_keys]
    exact List.mem_map_of_mem hphaseIn
  · rw [nil_append]
    show (document.entries.map (·.content.key)).Nodup
    rw [entries_keys]
    exact hvalid.stepKeys

theorem Writing.keepDocument {session document}
    (h : Writing document.phases.zipIdx document.entries session) :
    Laid document { session with roadmap := session.roadmap.keepDocument document } := by
  have hphasesSub : (session.roadmap.keepDocument document).phases.Sublist
      session.roadmap.phases := filter_sublist
  have hstepsSub : (session.roadmap.keepDocument document).steps.Sublist session.roadmap.steps :=
    filter_sublist.trans filter_sublist
  have hphases : ∀ {row : PhaseRow}, row ∈ session.roadmap.phases →
      row.key ∈ document.phases.map (·.key) →
      row ∈ (session.roadmap.keepDocument document).phases := by
    intro row hrow hkey
    exact mem_filter.mpr ⟨hrow, by simpa using hkey⟩
  refine ⟨⟨(hphasesSub.map _).nodup h.phaseIds, (hphasesSub.map _).nodup h.phaseKeys,
    fun row hrow => h.phaseFresh row (hphasesSub.subset hrow),
    (hstepsSub.map _).nodup h.stepIds, (hstepsSub.map _).nodup h.stepKeys,
    fun row hrow => h.stepFresh row (hstepsSub.subset hrow),
    fun row hrow => h.criteria row (hstepsSub.subset hrow), ?_, ?_⟩, ?_, ?_, rfl⟩
  · intro entry hentry
    obtain ⟨row, hrow, hshows⟩ := h.phases entry hentry
    refine ⟨row, hphases hrow ?_, hshows⟩
    rw [hshows.key, ← zipIdx_keys]
    exact List.mem_map_of_mem hentry
  · intro entry hentry
    obtain ⟨row, hrow, hshows⟩ := h.steps entry hentry
    obtain ⟨phase, hphase, hkey, hid⟩ := hshows.phase
    -- the phase of an entry is a phase of the document
    have hphaseKey : phase.key ∈ document.phases.map (·.key) := by
      obtain ⟨phaseIn, hphaseIn, hmem⟩ := mem_flatMap.mp hentry
      obtain ⟨_, _, rfl⟩ := List.mem_map.mp hmem
      rw [hkey]
      exact List.mem_map_of_mem hphaseIn
    have hkept := hphases hphase hphaseKey
    refine ⟨row, ?_, hshows.content, hshows.position, phase, hkept, hkey, hid⟩
    refine mem_filter.mpr ⟨mem_filter.mpr ⟨hrow, ?_⟩, ?_⟩
    · have hmem : row.key ∈ document.steps.map (·.key) := by
        rw [hshows.key, ← entries_keys]
        exact List.mem_map_of_mem hentry
      simpa using hmem
    · have hmem : row.phaseId ∈ (session.roadmap.keepDocument document).phases.map (·.id) :=
        List.mem_map.mpr ⟨phase, hkept, hid⟩
      exact decide_eq_true hmem
  · intro row hrow
    simpa using (mem_filter.mp hrow).2
  · intro row hrow
    simpa using (mem_filter.mp (mem_of_mem_filter hrow)).2

/-- What `reconcile_document` leaves alone. -/
structure ReconcileKeeps (session session' : Session) : Prop where
  ledger : session.roadmap.SameLedger session'.roadmap
  header : session.roadmap.SameHeader session'.roadmap
  version : session'.roadmap.version = session.roadmap.version
  links : session'.roadmap.links.Sublist session.roadmap.links
  fresh : session.nextId ≤ session'.nextId

theorem reconcileDocument_keeps {session document}
    (h : reconcileDocument session document = .ok session') : ReconcileKeeps session session' := by
  obtain ⟨_, h⟩ := guard_ok h
  cases h
  have honly := (OnlyRows.foldl (fun session (phaseIn : PhaseContent × Nat) =>
      (⟨⟨rfl, rfl, rfl, rfl, rfl, rfl⟩, ⟨rfl, rfl, rfl, rfl⟩, rfl, rfl, rfl, Nat.le_succ _⟩ :
        OnlyRows session (reconcilePhase session phaseIn.1 phaseIn.2)))
    document.phases.zipIdx session).trans
    (OnlyRows.foldl onlyRows_reconcileSteps document.phases _)
  refine ⟨⟨honly.ledger.id, honly.ledger.projectId, honly.ledger.status, honly.ledger.revisionNo,
    honly.ledger.approvedRevisionNo, honly.ledger.revisions⟩, ⟨honly.header.title,
    honly.header.objective, honly.header.context, honly.header.metadata⟩, honly.version, ?_,
    honly.fresh⟩
  rw [← honly.links]
  exact filter_sublist.trans filter_sublist

/-- **A reconciled plan is laid out as the document.** -/
theorem reconcileDocument_laid {session document}
    (h : reconcileDocument session document = .ok session') (hvalid : document.Valid)
    (hsound : session.Sound) : Laid document session' := by
  obtain ⟨_, h⟩ := guard_ok h
  cases h
  exact (writing_reconcile hvalid hsound).keepDocument

theorem reconcileDocument_sound {session document}
    (h : reconcileDocument session document = .ok session') (hvalid : document.Valid)
    (hsound : session.Sound) : session'.Sound := by
  refine (reconcileDocument_laid h hvalid hsound).sound hvalid
    ⟨?_, hsound.links.apart.sublist (reconcileDocument_keeps h).links⟩
  obtain ⟨_, h⟩ := guard_ok h
  cases h
  intro link hlink
  exact of_decide_eq_true (mem_filter.mp hlink).2

/-! ## Inserting -/

/-- No row but those of the entries written so far. -/
structure OnlyEntries (phasesDone : List (PhaseContent × Nat)) (stepsDone : List StepEntry)
    (session : Session) : Prop where
  phases : ∀ row ∈ session.roadmap.phases, row.key ∈ phasesDone.map (·.1.key)
  steps : ∀ row ∈ session.roadmap.steps, row.key ∈ stepsDone.map (·.content.key)

section Insert

variable {stepsDone : List StepEntry} {session : Session}

theorem insertPhase_eq {phaseIn position}
    (hkey : phaseIn.key ∉ session.roadmap.phases.map (·.key)) :
    insertPhase session phaseIn position = reconcilePhase session phaseIn position := by
  rw [insertPhase, reconcilePhase, Keyed.upsert_of_not_mem hkey]

theorem insertStep_eq {phaseId stepIn position}
    (hkey : stepIn.key ∉ session.roadmap.steps.map (·.key)) :
    insertStep phaseId session stepIn position = reconcileStep phaseId session stepIn position := by
  rw [insertStep, reconcileStep, Keyed.upsert_of_not_mem hkey]

theorem Writing.insertSteps {phasesDone} (h : Writing phasesDone stepsDone session)
    (honly : OnlyEntries phasesDone stepsDone session) (phase)
    (hphase : phase ∈ session.roadmap.phases) (entries)
    (hentries : ∀ entry ∈ entries, phase.key = entry.phaseKey)
    (hkeys : ((stepsDone ++ entries).map (·.content.key)).Nodup) :
    Writing phasesDone (stepsDone ++ entries) (entries.foldl (fun session entry =>
        insertStep phase.id session entry.content entry.position) session) ∧
      OnlyEntries phasesDone (stepsDone ++ entries) (entries.foldl (fun session entry =>
        insertStep phase.id session entry.content entry.position) session) := by
  induction entries generalizing stepsDone session with
  | nil =>
    rw [append_nil]
    exact ⟨h, honly⟩
  | cons entry entries ih =>
    have hfresh : entry.content.key ∉ stepsDone.map (·.content.key) := by
      rw [map_append, map_cons] at hkeys
      intro hmem
      exact (nodup_append.mp hkeys).2.2 _ hmem _ mem_cons_self rfl
    have hnew : entry.content.key ∉ session.roadmap.steps.map (·.key) := by
      intro hmem
      obtain ⟨row, hrow, heq⟩ := List.mem_map.mp hmem
      exact hfresh (heq ▸ honly.steps row hrow)
    have hstep := h.step hfresh hphase (hentries entry mem_cons_self)
    rw [← insertStep_eq hnew] at hstep
    have honly' : OnlyEntries phasesDone (stepsDone ++ [entry])
        (insertStep phase.id session entry.content entry.position) := by
      refine ⟨honly.phases, ?_⟩
      intro row hrow
      rw [map_append]
      rcases mem_append.mp hrow with hrow | hrow
      · exact mem_append_left _ (honly.steps row hrow)
      · obtain rfl := mem_singleton.mp hrow
        exact mem_append_right _ (mem_singleton_self _)
    rw [List.append_cons] at hkeys ⊢
    exact ih hstep honly' hphase (fun other hother => hentries other (.tail _ hother)) hkeys

theorem Writing.insertPhaseSteps {phasesDone} (h : Writing phasesDone stepsDone session)
    (honly : OnlyEntries phasesDone stepsDone session) {entry}
    (hkey : entry.1.key ∉ phasesDone.map (·.1.key))
    (hkeys : ((stepsDone ++ entry.1.entries).map (·.content.key)).Nodup) :
    Writing (phasesDone ++ [entry]) (stepsDone ++ entry.1.entries)
        (insertPhaseSteps session entry.1 entry.2) ∧
      OnlyEntries (phasesDone ++ [entry]) (stepsDone ++ entry.1.entries)
        (insertPhaseSteps session entry.1 entry.2) := by
  have hnew : entry.1.key ∉ session.roadmap.phases.map (·.key) := by
    intro hmem
    obtain ⟨row, hrow, heq⟩ := List.mem_map.mp hmem
    exact hkey (heq ▸ honly.phases row hrow)
  have hphase := h.phase hkey
  rw [← insertPhase_eq hnew] at hphase
  have honly' : OnlyEntries (phasesDone ++ [entry]) stepsDone
      (insertPhase session entry.1 entry.2) := by
    refine ⟨?_, honly.steps⟩
    intro row hrow
    rw [map_append]
    rcases mem_append.mp hrow with hrow | hrow
    · exact mem_append_left _ (honly.phases row hrow)
    · obtain rfl := mem_singleton.mp hrow
      exact mem_append_right _ (mem_singleton_self _)
  have hsteps := hphase.insertSteps honly' (newPhaseRow session.nextId entry.2 entry.1)
    (mem_append_right _ (mem_singleton_self _)) entry.1.entries ?_ hkeys
  · rw [PhaseContent.entries, foldl_map] at hsteps
    exact hsteps
  · intro other hother
    obtain ⟨_, _, rfl⟩ := List.mem_map.mp hother
    rfl

theorem Writing.insertAll {phasesDone} (h : Writing phasesDone stepsDone session)
    (honly : OnlyEntries phasesDone stepsDone session) (entries)
    (hphases : ((phasesDone ++ entries).map (·.1.key)).Nodup)
    (hsteps : ((stepsDone ++ entries.flatMap (·.1.entries)).map (·.content.key)).Nodup) :
    Writing (phasesDone ++ entries) (stepsDone ++ entries.flatMap (·.1.entries))
        (entries.foldl (fun session phaseIn =>
          StudioOS.Roadmaps.insertPhaseSteps session phaseIn.1 phaseIn.2) session) ∧
      OnlyEntries (phasesDone ++ entries) (stepsDone ++ entries.flatMap (·.1.entries))
        (entries.foldl (fun session phaseIn =>
          StudioOS.Roadmaps.insertPhaseSteps session phaseIn.1 phaseIn.2) session) := by
  induction entries generalizing phasesDone stepsDone session with
  | nil => simpa using ⟨h, honly⟩
  | cons entry entries ih =>
    have hfresh : entry.1.key ∉ phasesDone.map (·.1.key) := by
      rw [map_append, map_cons] at hphases
      intro hmem
      exact (nodup_append.mp hphases).2.2 _ hmem _ mem_cons_self rfl
    rw [flatMap_cons, ← append_assoc] at hsteps ⊢
    have hfirst : ((stepsDone ++ entry.1.entries).map (·.content.key)).Nodup := by
      rw [map_append] at hsteps
      exact (nodup_append.mp hsteps).1
    obtain ⟨hwriting, honly'⟩ := h.insertPhaseSteps honly hfresh hfirst
    rw [List.append_cons] at hphases ⊢
    exact ih hwriting honly' hphases hsteps

theorem writing_empty (hphases : session.roadmap.phases = [])
    (hsteps : session.roadmap.steps = []) : Writing [] [] session ∧ OnlyEntries [] [] session := by
  refine ⟨⟨?_, ?_, ?_, ?_, ?_, ?_, ?_, ?_, ?_⟩, ⟨?_, ?_⟩⟩ <;> simp [hphases, hsteps]

theorem onlyRows_insertPhaseSteps (session : Session) (entry : PhaseContent × Nat) :
    OnlyRows session (insertPhaseSteps session entry.1 entry.2) := by
  have hphase : OnlyRows session (insertPhase session entry.1 entry.2) :=
    ⟨⟨rfl, rfl, rfl, rfl, rfl, rfl⟩, ⟨rfl, rfl, rfl, rfl⟩, rfl, rfl, rfl, Nat.le_succ _⟩
  refine hphase.trans (OnlyRows.foldl (fun session stepIn => ?_) _ _)
  exact ⟨⟨rfl, rfl, rfl, rfl, rfl, rfl⟩, ⟨rfl, rfl, rfl, rfl⟩, rfl, rfl, rfl, Nat.le_succ _⟩

/-- **An imported plan is laid out as its document.** -/
theorem insertDocument_laid {document} (hvalid : document.Valid)
    (hphases : session.roadmap.phases = []) (hsteps : session.roadmap.steps = [])
    (hdeps : session.roadmap.deps = []) : Laid document (insertDocument session document) := by
  obtain ⟨hempty, hnone⟩ := writing_empty hphases hsteps
  have hentries : document.phases.zipIdx.flatMap (·.1.entries) = document.entries := by
    show _ = document.phases.flatMap (·.entries)
    have hfst : document.phases.zipIdx.map Prod.fst = document.phases := by simp
    conv_rhs => rw [← hfst, flatMap_map]
  have hloop := hempty.insertAll hnone document.phases.zipIdx ?_ ?_
  · rw [nil_append, nil_append, hentries] at hloop
    obtain ⟨hwriting, honly⟩ := hloop
    refine ⟨⟨hwriting.phaseIds, hwriting.phaseKeys, hwriting.phaseFresh, hwriting.stepIds,
      hwriting.stepKeys, hwriting.stepFresh, hwriting.criteria, hwriting.phases, hwriting.steps⟩,
      ?_, ?_, ?_⟩
    · intro row hrow
      rw [← zipIdx_keys]
      exact honly.phases row hrow
    · intro row hrow
      rw [← entries_keys]
      exact honly.steps row hrow
    · have hkept := (OnlyRows.foldl onlyRows_insertPhaseSteps document.phases.zipIdx session).deps
      show _ ++ documentDeps _ document = _
      rw [hkept, hdeps, nil_append]
      rfl
  · rw [nil_append, zipIdx_keys]
    exact hvalid.phaseKeys
  · rw [nil_append, hentries, entries_keys]
    exact hvalid.stepKeys

theorem insertDocument_keeps (session) (document) :
    session.roadmap.SameLedger (insertDocument session document).roadmap ∧
      session.roadmap.SameHeader (insertDocument session document).roadmap ∧
      (insertDocument session document).roadmap.links = session.roadmap.links ∧
      session.nextId ≤ (insertDocument session document).nextId := by
  have hkept := OnlyRows.foldl onlyRows_insertPhaseSteps document.phases.zipIdx session
  exact ⟨⟨hkept.ledger.id, hkept.ledger.projectId, hkept.ledger.status, hkept.ledger.revisionNo,
    hkept.ledger.approvedRevisionNo, hkept.ledger.revisions⟩, ⟨hkept.header.title,
    hkept.header.objective, hkept.header.context, hkept.header.metadata⟩, hkept.links,
    hkept.fresh⟩

end Insert

end StudioOS.Roadmaps
