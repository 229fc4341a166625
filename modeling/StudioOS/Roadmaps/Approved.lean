import StudioOS.Roadmaps.Reach

/-!
# Approved — the plan an approval leaves

A plan laid out as a document is built back as that document, up to empty
texts and the order of the dependencies. An approved proposal is laid out,
its header is not written.
-/

namespace StudioOS.Roadmaps

open List Option Runs Rows

theorem phaseLe_iff {a b} :
    phaseLe a b ↔ a.position < b.position ∨ (a.position = b.position ∧ a.key ≤ b.key) := by
  simp [phaseLe]

variable {roadmap : Roadmap} {row : StepRow} {entry : StepEntry}

theorem stepLe_iff {a b} :
    roadmap.stepLe a b ↔ roadmap.phaseOrder a.phaseId < roadmap.phaseOrder b.phaseId ∨
      (roadmap.phaseOrder a.phaseId = roadmap.phaseOrder b.phaseId ∧
        (a.position < b.position ∨ (a.position = b.position ∧ a.key ≤ b.key))) := by
  simp [Roadmap.stepLe]

instance phaseLe_trans : IsTrans PhaseRow (phaseLe · ·) where
  trans a b c hab hbc := by
    rw [phaseLe_iff] at hab hbc ⊢
    rcases hab with hab | ⟨hab, hkey⟩
    · left
      omega
    · rcases hbc with hbc | ⟨hbc, hkey'⟩
      · left
        omega
      · exact .inr ⟨hab.trans hbc, Std.le_trans hkey hkey'⟩

instance phaseLe_total : Std.Total (α := PhaseRow) (phaseLe · ·) where
  total a b := by
    rw [phaseLe_iff, phaseLe_iff]
    rcases Nat.lt_trichotomy a.position b.position with hlt | heq | hlt
    · exact .inl (.inl hlt)
    · rcases Std.le_total (a := a.key) (b := b.key) with hkey | hkey
      · exact .inl (.inr ⟨heq, hkey⟩)
      · exact .inr (.inr ⟨heq.symm, hkey⟩)
    · exact .inr (.inl hlt)

instance stepLe_trans (roadmap : Roadmap) : IsTrans StepRow (roadmap.stepLe · ·) where
  trans a b c hab hbc := by
    rw [stepLe_iff] at hab hbc ⊢
    rcases hab with hab | ⟨hab, hab'⟩
    · left
      omega
    rcases hbc with hbc | ⟨hbc, hbc'⟩
    · left
      omega
    refine .inr ⟨hab.trans hbc, ?_⟩
    rcases hab' with hab' | ⟨hab', hkey⟩
    · left
      omega
    · rcases hbc' with hbc' | ⟨hbc', hkey'⟩
      · left
        omega
      · exact .inr ⟨hab'.trans hbc', Std.le_trans hkey hkey'⟩

instance stepLe_total (roadmap : Roadmap) : Std.Total (α := StepRow) (roadmap.stepLe · ·) where
  total a b := by
    rw [stepLe_iff, stepLe_iff]
    rcases Nat.lt_trichotomy (roadmap.phaseOrder a.phaseId) (roadmap.phaseOrder b.phaseId) with
      hlt | heq | hlt
    · exact .inl (.inl hlt)
    · rcases Nat.lt_trichotomy a.position b.position with hlt | hpos | hlt
      · exact .inl (.inr ⟨heq, .inl hlt⟩)
      · rcases Std.le_total (a := a.key) (b := b.key) with hkey | hkey
        · exact .inl (.inr ⟨heq, .inr ⟨hpos, hkey⟩⟩)
        · exact .inr (.inr ⟨heq.symm, .inr ⟨hpos.symm, hkey⟩⟩)
      · exact .inr (.inr ⟨heq.symm, .inl hlt⟩)
    · exact .inr (.inl hlt)

theorem phasesInOrder_eq {laid : List PhaseRow} (hperm : roadmap.phases.Perm laid)
    (hsorted : laid.Pairwise fun a b => a.position < b.position) : roadmap.phasesInOrder = laid := by
  refine Keyed.eq_of_sorted ((phasesInOrder_perm roadmap).trans hperm)
    (pairwise_insertionSort (phaseLe · ·) roadmap.phases) hsorted ?_
  intro a _ b _ hlt
  rw [phaseLe_iff, phaseLe_iff]
  exact ⟨.inl hlt, by omega⟩

theorem stepsOf_eq {phaseId laid} (hperm : (roadmap.steps.filter (·.phaseId = phaseId)).Perm laid)
    (hsorted : laid.Pairwise fun a b => a.position < b.position) :
    roadmap.stepsOf phaseId = laid := by
  have hphase : ∀ row ∈ laid, row.phaseId = phaseId := by
    intro row hrow
    have hmem := (mem_filter.mp (hperm.mem_iff.mpr hrow)).2
    simpa using hmem
  refine Keyed.eq_of_sorted ((stepsOf_perm roadmap phaseId).trans hperm)
    ((pairwise_insertionSort (roadmap.stepLe · ·) roadmap.steps).filter _) hsorted ?_
  intro a ha b hb hlt
  rw [stepLe_iff, stepLe_iff, hphase a ha, hphase b hb]
  exact ⟨.inr ⟨rfl, .inl hlt⟩, by omega⟩

/-- A step up to empty texts and the order of its dependencies. -/
def StepContent.normal (content : StepContent) : StepContent :=
  { content.stored with dependsOn := content.dependsOn.insertionSort (· ≤ ·) }

def PhaseContent.normal (phase : PhaseContent) : PhaseContent :=
  { phase with objective := textOrNone phase.objective, steps := phase.steps.map (·.normal) }

/-- A document up to empty texts, the order of its dependencies and the
stamps of an export. -/
def RoadmapDocument.normal (document : RoadmapDocument) : RoadmapDocument :=
  { title := document.title
    objective := textOrNone document.objective
    context := textOrNone document.context
    metadata := document.metadata
    phases := document.phases.map (·.normal)
    exportedAt := none
    revisionNo := none }

structure Roadmap.ShowsHeader (roadmap : Roadmap) (document : RoadmapDocument) : Prop where
  title : roadmap.title = document.title
  objective : textOrNone roadmap.objective = textOrNone document.objective
  context : textOrNone roadmap.context = textOrNone document.context
  metadata : roadmap.metadata = document.metadata

@[simp] theorem textOrNone_textOrNone (text) : textOrNone (textOrNone text) = textOrNone text := by
  cases text with
  | none => rfl
  | some text =>
    by_cases hempty : text = ""
    · rw [hempty]
      rfl
    have hsome : textOrNone (some text) = some text := by
      unfold textOrNone
      split
      · rename_i heq
        exact absurd (some.inj heq) hempty
      · rfl
    rw [hsome, hsome]

theorem StepContent.stored_stored (content : StepContent) :
    content.stored.stored = content.stored := by
  simp [StepContent.stored]

/-! ## The document of a plan laid out -/

section Laid

variable {document : RoadmapDocument} {session : Session}

theorem Laid.phasesInOrder (h : Laid document session) (hvalid : document.Valid) :
    List.Forall₂ (fun entry row => PhaseRow.Shows row entry) document.phases.zipIdx
      session.roadmap.phasesInOrder := by
  obtain ⟨laid, hperm, hforall⟩ := h.phaseRows hvalid
  rw [phasesInOrder_eq hperm (sorted_of_zipIdx hforall fun _ _ hshows => hshows.position)]
  exact hforall

theorem Laid.stepsOf (h : Laid document session) (hvalid : document.Valid) {phaseIn}
    (hphaseIn : phaseIn ∈ document.phases) {phase} (hphase : phase ∈ session.roadmap.phases)
    (hkey : phase.key = phaseIn.key) :
    List.Forall₂ (fun entry row => StepRow.Shows row session.roadmap.phases entry)
      phaseIn.entries (session.roadmap.stepsOf phase.id) := by
  obtain ⟨laid, hperm, hforall⟩ := h.stepRowsOf hvalid hphaseIn hphase hkey
  rw [stepsOf_eq hperm]
  · exact hforall
  · rw [PhaseContent.entries, List.forall₂_map_left_iff] at hforall
    exact sorted_of_zipIdx hforall fun _ _ hshows => hshows.position

theorem dependsOnKeys_nodup (hids : (roadmap.steps.map (·.id)).Nodup)
    (hkeys : (roadmap.steps.map (·.key)).Nodup) (hgraph : GraphSound roadmap.steps roadmap.deps)
    (step) : (roadmap.dependsOnKeys step).Nodup := by
  have htargets : (roadmap.targetsOf step.id).Nodup := by
    refine (hgraph.edges.filter _).map_on ?_
    intro a ha b hb heq
    have hstep : a.stepId = step.id ∧ b.stepId = step.id :=
      ⟨by simpa using (mem_filter.mp ha).2, by simpa using (mem_filter.mp hb).2⟩
    rw [DependencyRow.mk.injEq]
    exact ⟨hstep.1.trans hstep.2.symm, heq⟩
  refine List.Nodup.map_on ?_ ((perm_insertionSort _ _).nodup_iff.mpr htargets)
  intro a ha b hb heq
  have hrow : ∀ {target : RowId}, target ∈ roadmap.targetsOf step.id →
      ∃ row ∈ roadmap.steps, row.id = target := by
    intro target hmem
    exact List.mem_map.mp (hgraph.inside _ (mem_targetsOf.mp hmem)).2
  obtain ⟨row, hrowMem, rfl⟩ := hrow ((perm_insertionSort _ _).mem_iff.mp ha)
  obtain ⟨row', hrowMem', rfl⟩ := hrow ((perm_insertionSort _ _).mem_iff.mp hb)
  rw [keyOf_of_mem hids hrowMem, keyOf_of_mem hids hrowMem'] at heq
  rw [Keyed.eq_of_key hkeys hrowMem hrowMem' heq]

theorem Laid.dependsOnKeys (h : Laid document session) (hvalid : document.Valid)
    (hrow : row ∈ session.roadmap.steps) (hentry : entry ∈ document.entries)
    (hkey : row.key = entry.content.key) :
    (session.roadmap.dependsOnKeys row).Perm entry.content.dependsOn := by
  have hids := h.writing.stepIds
  have hkeys := h.writing.stepKeys
  have hgraph : GraphSound session.roadmap.steps session.roadmap.deps := by
    rw [h.deps]
    exact documentDeps_sound hvalid hkeys hids
  have hcontent : entry.content ∈ document.steps := by
    rw [← document.entries_content]
    exact List.mem_map_of_mem hentry
  refine (perm_ext_iff_of_nodup (dependsOnKeys_nodup hids hkeys hgraph row)
    (hvalid.dependencies entry.content hcontent)).mpr fun key => ?_
  rw [mem_dependsOnKeys hids hgraph]
  constructor
  · rintro ⟨target, htarget, hwaits, rfl⟩
    rw [h.deps] at hwaits
    obtain ⟨stepIn, hstepIn, heq, hmem⟩ := (mem_documentDeps hkeys hrow htarget hids).mp hwaits
    rwa [Keyed.eq_of_key hvalid.stepKeys hstepIn hcontent (heq.trans hkey)] at hmem
  intro hmem
  have hknown := hvalid.known entry.content hcontent key hmem
  rw [← entries_keys] at hknown
  obtain ⟨other, hother, heq⟩ := List.mem_map.mp hknown
  obtain ⟨target, htarget, hshows⟩ := h.writing.steps other hother
  have htargetKey : target.key = key := hshows.key.trans heq
  refine ⟨target, htarget, ?_, htargetKey⟩
  rw [h.deps]
  refine (mem_documentDeps hkeys hrow htarget hids).mpr ⟨entry.content, hcontent, hkey.symm, ?_⟩
  rw [htargetKey]
  exact hmem

theorem Laid.buildStep (h : Laid document session) (hvalid : document.Valid)
    (hrow : row ∈ session.roadmap.steps) (hentry : entry ∈ document.entries)
    (hshows : row.Shows session.roadmap.phases entry) :
    (buildStep session.roadmap row).normal = entry.content.normal := by
  have hdeps : (session.roadmap.dependsOnKeys row).insertionSort (· ≤ ·) =
      entry.content.dependsOn.insertionSort (· ≤ ·) :=
    List.Perm.eq_of_pairwise (fun _ _ _ _ => Std.le_antisymm)
      (pairwise_insertionSort _ _) (pairwise_insertionSort _ _)
      ((perm_insertionSort _ _).trans ((h.dependsOnKeys hvalid hrow hentry hshows.key).trans
        (perm_insertionSort _ _).symm))
  have hstored : (StudioOS.Roadmaps.buildStep session.roadmap row).stored = row.content.stored := rfl
  rw [StepContent.normal, StepContent.normal, hstored, hshows.content, StepContent.stored_stored]
  exact congrArg (fun keys => { entry.content.stored with dependsOn := keys }) hdeps

/-- **A plan laid out is built back as its document.** -/
theorem Laid.buildPhases (h : Laid document session) (hvalid : document.Valid) :
    (buildDocument session.roadmap).phases.map (·.normal) = document.phases.map (·.normal) := by
  have hfst : document.phases.map (·.normal) = document.phases.zipIdx.map (·.1.normal) := by
    conv_lhs => rw [← zipIdx_map_fst 0 document.phases, List.map_map]
    rfl
  show (session.roadmap.phasesInOrder.map _).map _ = _
  rw [hfst, List.map_map]
  refine Keyed.map_eq_of_forall₂ (h.phasesInOrder hvalid) ?_
  intro entry hentry phase hphase hshows
  have hphaseIn : entry.1 ∈ document.phases := fst_mem_of_mem_zipIdx hentry
  have hmem := (phasesInOrder_perm session.roadmap).mem_iff.mp hphase
  have hsteps : (session.roadmap.stepsOf phase.id).map
      (fun row => (StudioOS.Roadmaps.buildStep session.roadmap row).normal) =
      entry.1.entries.map (·.content.normal) := by
    refine Keyed.map_eq_of_forall₂ (h.stepsOf hvalid hphaseIn hmem hshows.key) ?_
    intro stepEntry hstepEntry row hrow hrowShows
    exact h.buildStep hvalid (mem_stepsOf.mp hrow).1
      (mem_flatMap.mpr ⟨entry.1, hphaseIn, hstepEntry⟩) hrowShows
  have hcontents : entry.1.entries.map (·.content.normal) = entry.1.steps.map (·.normal) := by
    conv_rhs => rw [← entry.1.entries_content, List.map_map]
    rfl
  show PhaseContent.mk phase.key phase.title (textOrNone phase.objective)
    (((session.roadmap.stepsOf phase.id).map _).map _) = _
  rw [List.map_map, hshows.key, hshows.title, hshows.objective, textOrNone_textOrNone]
  show PhaseContent.mk _ _ _ ((session.roadmap.stepsOf phase.id).map
    (fun row => (StudioOS.Roadmaps.buildStep session.roadmap row).normal)) = _
  rw [hsteps, hcontents]
  rfl

theorem normal_eq_iff
    (hphases : (buildDocument roadmap).phases.map (·.normal) = document.phases.map (·.normal)) :
    (buildDocument roadmap).normal = document.normal ↔ roadmap.ShowsHeader document := by
  constructor
  · intro heq
    exact ⟨congrArg RoadmapDocument.title heq, congrArg RoadmapDocument.objective heq,
      congrArg RoadmapDocument.context heq, congrArg RoadmapDocument.metadata heq⟩
  · intro hheader
    show RoadmapDocument.mk roadmap.title (textOrNone roadmap.objective)
      (textOrNone roadmap.context) roadmap.metadata _ _ _ = _
    rw [hheader.title, hheader.objective, hheader.context, hheader.metadata, hphases]
    rfl

end Laid

theorem proposalRow_of_mem (hnumbers : (roadmap.revisions.map (·.revisionNo)).Nodup) {revision}
    (hmem : revision ∈ roadmap.revisions) (hkind : revision.kind = .proposal) :
    proposalRow roadmap revision.revisionNo = some revision := by
  cases hfind : proposalRow roadmap revision.revisionNo with
  | none =>
    have hnone := List.find?_eq_none.mp hfind revision hmem
    simp [hkind] at hnone
  | some other =>
    have hother : other.revisionNo = revision.revisionNo ∧ other.kind = .proposal := by
      simpa using List.find?_some hfind
    rw [Keyed.eq_of_key hnumbers (List.mem_of_find?_eq_some hfind) hmem hother.1]

theorem reviewProposal_laid {session session' writer revisionNo payload} (hgood : session.Good)
    (happrove : payload.decision = .approve)
    (h : reviewProposal session writer revisionNo payload = .ok session') :
    ∃ revision reconciled, proposalRow session.roadmap revisionNo = some revision ∧
      revision.content.Valid ∧ Laid revision.content reconciled ∧
      session.roadmap.SameHeader reconciled.roadmap ∧
      buildDocument session'.roadmap = buildDocument reconciled.roadmap := by
  obtain ⟨hactive, revision, hmem, rfl, hpending, decided, hdecided, rfl⟩ := reviewProposal_ok h
  rw [happrove] at hdecided
  obtain ⟨_, reconciled, hreconciled, rfl⟩ := approveProposal_ok hdecided
  have hstatus : session.roadmap.status ≠ .proposed := by
    rw [hactive]
    decide
  have hvalid := valid_of_no_errors (hgood.ledger.valid hstatus revision hmem hpending)
  exact ⟨revision, reconciled,
    proposalRow_of_mem hgood.ledger.numbers hmem (kind_of_pending hpending).1, hvalid,
    reconcileDocument_laid hreconciled hvalid hgood.sound,
      (reconcileDocument_keeps hreconciled).header,
    rfl⟩

/-- **An approved document is the plan, when the header is the roadmap's already.** -/
theorem approval_yields_document {db : Db} (h : Reachable db) {roadmap : Roadmap}
    (hmem : roadmap ∈ db.roadmaps) {writer : Writer} {revisionNo : Int} {payload : ProposalReview}
    {session : Session} (happrove : payload.decision = .approve)
    (hreview : reviewProposal ⟨roadmap, db.nextId⟩ writer revisionNo payload = .ok session) :
    ∃ revision, proposalRow roadmap revisionNo = some revision ∧
      ((buildDocument session.roadmap).normal = revision.content.normal ↔
        roadmap.ShowsHeader revision.content) := by
  obtain ⟨revision, reconciled, hrow, hvalid, hlaid, hheader, hbuild⟩ :=
    reviewProposal_laid (h.good.good roadmap hmem) happrove hreview
  refine ⟨revision, hrow, ?_⟩
  rw [hbuild, normal_eq_iff (hlaid.buildPhases hvalid)]
  constructor
  · intro hshows
    refine ⟨hheader.title.symm.trans hshows.title, ?_, ?_, hheader.metadata.symm.trans hshows.metadata⟩
    · rw [← hshows.objective, hheader.objective]
    · rw [← hshows.context, hheader.context]
  · intro hshows
    refine ⟨hheader.title.trans hshows.title, ?_, ?_, hheader.metadata.trans hshows.metadata⟩
    · rw [← hshows.objective, hheader.objective]
    · rw [← hshows.context, hheader.context]

/-- An active plan and a proposal for it under a title. -/
def proposedPlan (title : String) : List (Writer × Act) :=
  [(admin, .importRoadmap ⟨⟨"project"⟩, { plannedDocument "Plan" with phases := [] }, true⟩),
    (admin, .request 0 (.transitionRoadmap ⟨.approve, 1, none⟩)),
    (admin, .request 0 (.createProposal ⟨1, plannedDocument title, false, none⟩))]

theorem approval_yields_document_proposedPlan : ∃ db roadmap session revision, Reachable db ∧
    roadmap ∈ db.roadmaps ∧
    reviewProposal ⟨roadmap, db.nextId⟩ admin 2 ⟨.approve, 2, none⟩ = .ok session ∧
    proposalRow roadmap 2 = some revision ∧
    (buildDocument session.roadmap).normal = revision.content.normal := by
  have hrun : (execWithin Db.step Free (Db.start [⟨"project"⟩]) (proposedPlan "Plan")).any fun db =>
      db.roadmaps.any fun roadmap =>
        (reviewProposal ⟨roadmap, db.nextId⟩ admin 2 ⟨.approve, 2, none⟩).toOption.isSome &&
        (proposalRow roadmap 2).any fun revision =>
          roadmap.title = revision.content.title && roadmap.objective = revision.content.objective &&
          roadmap.context = revision.content.context &&
          roadmap.metadata = revision.content.metadata := by decide +kernel
  obtain ⟨db, hdb, hany⟩ := Run.of_any hrun
  obtain ⟨roadmap, hmem, hboth⟩ := List.any_eq_true.mp hany
  obtain ⟨hsome, hheader⟩ := Bool.and_eq_true_iff.mp hboth
  obtain ⟨session, hsession⟩ := isSome_iff_exists.mp hsome
  have hreview := ok_of_toOption hsession
  have hreach : Reachable db := ⟨_, _, hdb⟩
  obtain ⟨revision, hrow, hiff⟩ := approval_yields_document hreach hmem rfl hreview
  refine ⟨db, roadmap, session, revision, hreach, hmem, hreview, hrow, hiff.mpr ?_⟩
  rw [hrow] at hheader
  simp only [any_some, Bool.and_eq_true, decide_eq_true_eq] at hheader
  obtain ⟨⟨⟨htitle, hobjective⟩, hcontext⟩, hmetadata⟩ := hheader
  exact ⟨htitle, by rw [hobjective], by rw [hcontext], hmetadata⟩

/-- A proposal under another title is approved and the title stays. -/
theorem approval_loses_title : ∃ db roadmap session revision, Reachable db ∧
    roadmap ∈ db.roadmaps ∧ roadmap.status = .active ∧
    reviewProposal ⟨roadmap, db.nextId⟩ admin 2 ⟨.approve, 2, none⟩ = .ok session ∧
    proposalRow roadmap 2 = some revision ∧ roadmapDocumentErrors revision.content = [] ∧
    (buildDocument session.roadmap).normal ≠ revision.content.normal := by
  have hrun : (execWithin Db.step Free (Db.start [⟨"project"⟩]) (proposedPlan "Renamed")).any
      fun db => db.roadmaps.any fun roadmap => roadmap.status = .active &&
        (reviewProposal ⟨roadmap, db.nextId⟩ admin 2 ⟨.approve, 2, none⟩).toOption.any fun session =>
          (proposalRow roadmap 2).any fun revision =>
            (roadmapDocumentErrors revision.content).isEmpty &&
            session.roadmap.title ≠ revision.content.title := by decide +kernel
  obtain ⟨db, hdb, hany⟩ := Run.of_any hrun
  obtain ⟨roadmap, hmem, hall⟩ := List.any_eq_true.mp hany
  obtain ⟨hactive, hall⟩ := Bool.and_eq_true_iff.mp hall
  obtain ⟨session, hsession, hall⟩ := (Option.any_eq_true _ _).mp hall
  obtain ⟨revision, hrow, hall⟩ := (Option.any_eq_true _ _).mp hall
  obtain ⟨hvalid, htitle⟩ := Bool.and_eq_true_iff.mp hall
  refine ⟨db, roadmap, session, revision, ⟨_, _, hdb⟩, hmem,
    of_decide_eq_true hactive, ok_of_toOption hsession, hrow, List.isEmpty_iff.mp hvalid, ?_⟩
  intro heq
  exact of_decide_eq_true htitle (congrArg RoadmapDocument.title heq)

/-- **An imported roadmap is built back as its document**, submitted or not. -/
theorem import_rebuilt {nextId projects writer payload} {session : Session}
    (h : importRoadmap nextId projects writer payload = .ok session) :
    (buildDocument session.roadmap).normal = payload.document.normal := by
  obtain ⟨herrors, hsession⟩ := importRoadmap_cases h
  have hvalid := valid_of_no_errors herrors
  have hlaid : Laid payload.document (imported nextId payload) :=
    insertDocument_laid hvalid rfl rfl rfl
  obtain ⟨-, hheader, -⟩ := insertDocument_keeps ⟨newRoadmap nextId payload.projectId
    payload.document.title payload.document.objective payload.document.context
    payload.document.metadata, nextId + 1⟩ payload.document
  have hbuild : (buildDocument (imported nextId payload).roadmap).normal = payload.document.normal :=
    (normal_eq_iff (hlaid.buildPhases hvalid)).mpr
      ⟨hheader.title, (congrArg _ hheader.objective).trans (textOrNone_textOrNone _),
        (congrArg _ hheader.context).trans (textOrNone_textOrNone _), hheader.metadata⟩
  rcases hsession with rfl | rfl <;> exact hbuild

theorem import_rebuilt_planned : ∃ session, importRoadmap 0 [⟨"project"⟩] admin
      ⟨⟨"project"⟩, plannedDocument "Plan", true⟩ = .ok session ∧
    (buildDocument session.roadmap).normal = (plannedDocument "Plan").normal := by
  have hsome : (importRoadmap 0 [⟨"project"⟩] admin
    ⟨⟨"project"⟩, plannedDocument "Plan", true⟩).toOption.isSome = true := by decide +kernel
  obtain ⟨session, h⟩ := isSome_iff_exists.mp hsome
  exact ⟨session, ok_of_toOption h, import_rebuilt (ok_of_toOption h)⟩

end StudioOS.Roadmaps
