import StudioOS.Roadmaps.Reach

/-!
# History — one roadmap through a run

A run takes one roadmap through the requests on it and the hydrations of
it; what these keep, the run keeps. The first use: while a draft is
edited by documents only, its revision number tells its tree.
-/

namespace StudioOS.Roadmaps

open Runs

variable {db db' : Db} {writer : Writer} {roadmap : Roadmap}

/-! ## The run rule of one roadmap -/

/-- Where a row of the next state comes from. -/
inductive Db.Next (db : Db) (writer : Writer) (act : Act) : Roadmap → Prop where
  | kept {row} (hmem : row ∈ db.roadmaps) : Db.Next db writer act row
  | new {row} (hid : row.id = db.nextId) : Db.Next db writer act row
  | request {row request session} (hmem : row ∈ db.roadmaps) (hact : act = .request row.id request)
      (hrun : runRequest (db.otherActive row) db.tasks ⟨row, db.nextId⟩ writer request =
        .ok session) : Db.Next db writer act session.roadmap
  | hydrated {row links} (hmem : row ∈ db.roadmaps)
      (hallowed : writeAllowed row.status .hydrationApply = true) :
      Db.Next db writer act { row with links := row.links ++ links }

variable {session : Session} {row : Roadmap} {act : Act}
  {roadmap' before after : Roadmap}

theorem Db.mem_add
    (h : row ∈ (db.add session).roadmaps) : row ∈ db.roadmaps ∨ row = session.roadmap := by
  rcases List.mem_append.mp h with h | h
  · exact .inl h
  · exact .inr (List.mem_singleton.mp h)

theorem Db.next (h : db.perform writer act = .ok db')
    (hrow : row ∈ db'.roadmaps) : db.Next writer act row := by
  cases act with
  | createRoadmap payload =>
    obtain ⟨session, hsession, h⟩ := bind_ok h
    cases h
    rcases Db.mem_add hrow with hrow | rfl
    · exact .kept hrow
    · exact .new (createRoadmap_ok hsession).id
  | importRoadmap payload =>
    obtain ⟨session, hsession, h⟩ := bind_ok h
    cases h
    rcases Db.mem_add hrow with hrow | rfl
    · exact .kept hrow
    · exact .new (importRoadmap_ok hsession).id
  | request roadmapId request =>
    obtain ⟨roadmap, hfind, h⟩ := bind_ok h
    obtain ⟨session, hsession, h⟩ := bind_ok h
    cases h
    obtain ⟨hmem, rfl⟩ := Db.find_ok hfind
    rcases Db.mem_put hrow with rfl | ⟨hrow, _⟩
    · exact .request hmem rfl hsession
    · exact .kept hrow
  | applyHydration roadmapId payload =>
    obtain ⟨roadmap, hfind, h⟩ := bind_ok h
    obtain ⟨⟨session, tasks, result⟩, happlied, h⟩ := bind_ok h
    cases h
    obtain ⟨hmem, _⟩ := Db.find_ok hfind
    obtain ⟨hguard, _, _, planned, _, rfl, rfl, rfl⟩ := applyHydration_ok happlied
    rcases Db.mem_put hrow with rfl | ⟨hrow, _⟩
    · exact .hydrated hmem (guardWrite_ok hguard)
    · exact .kept hrow
  | taskCreated projectId title description =>
    obtain ⟨task, _, h⟩ := bind_ok h
    cases h
    exact .kept hrow
  | taskChanged taskId title description status =>
    cases h
    exact .kept hrow

theorem Db.nextId_le (h : db.perform writer act = .ok db') : db.nextId ≤ db'.nextId := by
  cases act with
  | createRoadmap payload =>
    obtain ⟨session, hsession, h⟩ := bind_ok h
    cases h
    exact (createRoadmap_ok hsession).fresh.le
  | importRoadmap payload =>
    obtain ⟨session, hsession, h⟩ := bind_ok h
    cases h
    exact (importRoadmap_ok hsession).fresh.le
  | request roadmapId request =>
    obtain ⟨roadmap, _, h⟩ := bind_ok h
    obtain ⟨session, hsession, h⟩ := bind_ok h
    cases h
    exact (runRequest_sameRow hsession).fresh
  | applyHydration roadmapId payload =>
    obtain ⟨roadmap, _, h⟩ := bind_ok h
    obtain ⟨⟨session, tasks, result⟩, happlied, h⟩ := bind_ok h
    cases h
    obtain ⟨_, _, _, planned, _, rfl, rfl, rfl⟩ := applyHydration_ok happlied
    exact Nat.le_add_right _ _
  | taskCreated projectId title description =>
    obtain ⟨task, _, h⟩ := bind_ok h
    cases h
    exact Nat.le_succ _
  | taskChanged taskId title description status =>
    cases h
    exact Nat.le_refl _

/-- **The run rule of one roadmap**: what the guarded requests on it and its
hydrations keep, a guarded run keeps. -/
theorem roadmap_rule {calls} {G : Db → Writer × Act → Prop} {I : Roadmap → Prop}
    (hgood : db.Good) (hrun : Run Db.step G db calls db')
    (hmem : roadmap ∈ db.roadmaps) (hmem' : roadmap' ∈ db'.roadmaps)
    (hid : roadmap'.id = roadmap.id) (hstart : I roadmap)
    (hrequest : ∀ {db : Db} {row : Roadmap} {session : Session} {writer : Writer}
      {request : Request}, db.Good → row ∈ db.roadmaps → G db (writer, .request row.id request) →
      I row → runRequest (db.otherActive row) db.tasks ⟨row, db.nextId⟩ writer request =
        .ok session → I session.roadmap) (hhydrated : ∀ {row : Roadmap} {links : List LinkRow},
      writeAllowed row.status .hydrationApply = true → I row → I { row with links := links }) :
    I roadmap' := by
  have hall : db'.Good ∧ roadmap.id < db'.nextId ∧
      ∀ row ∈ db'.roadmaps, row.id = roadmap.id → I row := by
    refine hrun.invariant (I := fun db => db.Good ∧ roadmap.id < db.nextId ∧
      ∀ row ∈ db.roadmaps, row.id = roadmap.id → I row) ?_ ⟨hgood, hgood.fresh roadmap hmem, ?_⟩
    · rintro between ⟨writer, act⟩ after ⟨hgood, hfresh, hall⟩ hguard hstep
      have hperform := Db.step_ok hstep
      refine ⟨hgood.perform hperform, hfresh.trans_le (Db.nextId_le hperform), ?_⟩
      intro row hrow hrowId
      cases Db.next hperform hrow with
      | kept hmem => exact hall row hmem hrowId
      | new hnew => exact absurd (hrowId.symm.trans hnew) hfresh.ne
      | request hmem hact hrequested =>
        have hsame := (runRequest_sameRow hrequested).id
        subst hact
        exact hrequest hgood hmem hguard (hall _ hmem (hsame.symm.trans hrowId)) hrequested
      | hydrated hmem hallowed => exact hhydrated hallowed (hall _ hmem hrowId)
    · intro row hrow hrowId
      rw [Keyed.eq_of_key hgood.ids hrow hmem hrowId]
      exact hstart
  exact hall.2.2 roadmap' hmem' hid

/-! ## Drafts -/

/-- A plan still being written or first reviewed. -/
def Roadmap.Authoring (roadmap : Roadmap) : Prop :=
  roadmap.status = .draft ∨ roadmap.status = .proposed

/-- While a plan is authored, a revision number stands for one tree. -/
structure SameRevision (before after : Roadmap) : Prop where
  authoring : before.Authoring
  number : before.revisionNo ≤ after.revisionNo
  tree : before.revisionNo = after.revisionNo → after.tree = before.tree

theorem SameRevision.trans {between} (h : SameRevision before between)
    (h' : SameRevision between after) : SameRevision before after := by
  refine ⟨h.authoring, h.number.trans h'.number, ?_⟩
  intro heq
  have hfirst : before.revisionNo = between.revisionNo := le_antisymm h.number (heq ▸ h'.number)
  exact (h'.tree (hfirst.symm.trans heq)).trans (h.tree hfirst)

theorem SameRevision.of_lt (h : before.Authoring)
    (hlt : before.revisionNo < after.revisionNo) : SameRevision before after :=
  ⟨h, hlt.le, fun heq => absurd heq hlt.ne⟩

theorem revisionNo_draftRevised (payload) (roadmap) :
    roadmap.revisionNo < (draftRevised payload roadmap).revisionNo := by
  have hnext : roadmap.revisionNo < nextRevisionNo
      { withHeader roadmap payload.document with version := roadmap.version + 1 } :=
    revisionNo_lt_next _
  unfold draftRevised
  by_cases hsubmit : payload.submit
  · simp only [hsubmit, if_true, withSummary]
    split <;> exact hnext
  · simp only [hsubmit]
    exact hnext

theorem sameRevision_transitioned {target payload}
    (htarget : transitionTarget roadmap.status payload.transition = some target)
    (hafter : target = .draft ∨ target = .proposed) :
    SameRevision roadmap (transitioned roadmap target payload) := by
  by_cases hsubmit : payload.transition = .submit
  · rw [hsubmit] at htarget
    refine .of_lt (.inl (submit_of_draft htarget).1) ?_
    rw [transitioned, if_pos hsubmit]
    exact revisionNo_lt_next { roadmap with version := roadmap.version + 1 }
  obtain ⟨hproposed, hdraft, _⟩ := transitionTarget_cases htarget hsubmit
  have htargetDraft : target = .draft := hafter.resolve_right hproposed
  have hstatus : roadmap.status = .proposed := by
    by_contra hne
    exact hdraft hne htargetDraft
  have hback : payload.transition = .requestChanges := by
    rw [hstatus, htargetDraft] at htarget
    cases htransition : payload.transition <;> rw [htransition] at htarget <;>
      first | rfl | cases htarget
  rw [transitioned, if_neg hsubmit]
  simp only [applyTransition, hback]
  split <;> exact ⟨.inr hstatus, le_refl _, fun _ => rfl⟩

/-- A committed request that leaves a plan authored, unless it edits a draft
in place. -/
theorem runRequest_sameRevision {otherActive tasks session' request}
    (h : runRequest otherActive tasks session writer request = .ok session')
    (hafter : session'.roadmap.Authoring) : SameRevision session.roadmap session'.roadmap ∨
      (session.roadmap.status = .draft ∧ request.editsContent ∧
        session'.roadmap.revisionNo = session.roadmap.revisionNo) := by
  rcases runRequest_cases h with ⟨kind, hkind, hedit⟩ | ⟨payload, _, h⟩ | ⟨payload, _, h⟩ |
    ⟨revisionNo, payload, _, h⟩
  · cases hedit with
    | same => exact .inl ⟨hafter, le_refl _, fun _ => rfl⟩
    | @content roadmap nextId ledger _ allowed _ _ _ =>
      have hstatus : (contentChanged roadmap).status = session.roadmap.status :=
        (sameLedger_contentChanged roadmap).2.2.1.trans ledger.status
      rcases hafter with hdraft | hproposed
      · have hdraft' := hstatus.symm.trans hdraft
        refine .inr ⟨hdraft', hkind rfl, ?_⟩
        -- only an active roadmap takes a snapshot of an edit
        rw [← ledger.revisionNo]
        show (if roadmap.status = .active then _ else _ : Roadmap).revisionNo = _
        rw [ledger.status, hdraft']
        rfl
      · exact absurd (hstatus.symm.trans hproposed) (not_proposed_of_allowed allowed)
    | progress ledger _ _ tree _ _ =>
      refine .inl ⟨?_, ledger.revisionNo.ge, fun _ => tree⟩
      rw [Roadmap.Authoring, ← ledger.status]
      exact hafter
  · rcases transitionRoadmap_ok h with ⟨_, rfl⟩ | ⟨target, htarget, _, rfl⟩
    · exact .inl ⟨hafter, le_refl _, fun _ => rfl⟩
    · have hstatus := (transitioned_row htarget).2.2
      have htargetAuthoring : target = .draft ∨ target = .proposed := by
        rw [← hstatus]
        exact hafter
      exact .inl (sameRevision_transitioned htarget htargetAuthoring)
  · rcases createProposal_cases h with ⟨hdraft, h⟩ | ⟨hactive, _, revision, _, _, _, _, rfl⟩
    · obtain ⟨_, _, reconciled, hreconciled, rfl⟩ := reviseDraft_ok h
      refine .inl (.of_lt (.inl hdraft) ?_)
      rw [← (reconcileDocument_keeps hreconciled).ledger.revisionNo]
      exact revisionNo_draftRevised payload reconciled.roadmap
    · rcases hafter with hdraft | hproposed
      · exact nomatch hactive.symm.trans hdraft
      · exact nomatch hactive.symm.trans hproposed
  · obtain ⟨hactive, revision, _, _, _, decided, hdecided, rfl⟩ := reviewProposal_ok h
    have hstatus : decided.roadmap.status = .active := by
      cases hdecision : payload.decision with
      | requestChanges | reject =>
        rw [hdecision] at hdecided
        cases hdecided
        exact hactive
      | approve =>
        rw [hdecision] at hdecided
        obtain ⟨_, reconciled, hreconciled, rfl⟩ := approveProposal_ok hdecided
        exact (reconcileDocument_keeps hreconciled).ledger.status.trans hactive
    rcases hafter with hdraft | hproposed
    · exact nomatch hstatus.symm.trans hdraft
    · exact nomatch hstatus.symm.trans hproposed

/-- No request edits the draft in place while it stands at a number. -/
def NotInPlace (roadmapId : RowId) (number : Int) (db : Db) (call : Writer × Act) : Prop :=
  ∀ roadmap ∈ db.roadmaps, roadmap.id = roadmapId → roadmap.status = .draft →
    roadmap.revisionNo = number → call.2.editsContent roadmapId = false

instance (roadmapId : RowId) (number : Int) (db : Db) (call : Writer × Act) :
    Decidable (NotInPlace roadmapId number db call) :=
  inferInstanceAs (Decidable (∀ roadmap ∈ db.roadmaps, roadmap.id = roadmapId →
    roadmap.status = .draft → roadmap.revisionNo = number → call.2.editsContent roadmapId = false))

/-- While a draft is not edited in place at a number, the number tells its
tree. -/
theorem sameRevision_run {calls} (hgood : db.Good)
    (hrun : Run Db.step (NotInPlace roadmap.id roadmap.revisionNo) db calls db')
    (hmem : roadmap ∈ db.roadmaps) (hmem' : roadmap' ∈ db'.roadmaps)
    (hid : roadmap'.id = roadmap.id) (hafter : roadmap'.Authoring) :
    SameRevision roadmap roadmap' := by
  refine (roadmap_rule (I := fun row => row.id = roadmap.id ∧
    (row.Authoring → SameRevision roadmap row)) hgood hrun hmem hmem' hid
    ⟨rfl, fun hauthoring => ⟨hauthoring, le_refl _, fun _ => rfl⟩⟩ ?_ ?_).2 hafter
  · rintro db row session writer request _ hrow hguard ⟨hrowId, hsame⟩ hrequest
    refine ⟨(runRequest_sameRow hrequest).id.trans hrowId, fun hauthoring => ?_⟩
    rcases runRequest_sameRevision hrequest hauthoring with hstep | ⟨hdraft, hedits, hnumber⟩
    · exact (hsame hstep.authoring).trans hstep
    have hbefore := hsame (.inl hdraft)
    by_cases hsameNumber : row.revisionNo = roadmap.revisionNo
    · have hnone := hguard row hrow hrowId hdraft hsameNumber
      simp [Act.editsContent, hrowId, hedits] at hnone
    · have hle : roadmap.revisionNo ≤ row.revisionNo := hbefore.number
      have hnumber : session.roadmap.revisionNo = row.revisionNo := hnumber
      refine .of_lt hbefore.authoring ?_
      omega
  · rintro row links _ ⟨hrowId, hsame⟩
    refine ⟨hrowId, fun hauthoring => ?_⟩
    exact ⟨(hsame hauthoring).authoring, (hsame hauthoring).number, (hsame hauthoring).tree⟩

/-- **A document replaces the tree its author read**, when no edit in place
came between; otherwise it is refused. -/
theorem draft_replacement {db db' : Db} {calls : List (Writer × Act)} {roadmap roadmap' : Roadmap}
    (h : Reachable db) (hrun : Run Db.step (NotInPlace roadmap.id roadmap.revisionNo) db calls db')
    (hmem : roadmap ∈ db.roadmaps) (hmem' : roadmap' ∈ db'.roadmaps)
    (hid : roadmap'.id = roadmap.id) (hdraft : roadmap'.status = .draft) (writer : Writer)
    (payload : ProposalCreate) (hbase : payload.baseRevisionNo = roadmap.revisionNo) :
    (∀ session, createProposal ⟨roadmap', db'.nextId⟩ writer payload = .ok session →
      roadmap'.tree = roadmap.tree) ∧
    (roadmap'.tree ≠ roadmap.tree → guardWrite writer roadmap' .content = .ok () →
      createProposal ⟨roadmap', db'.nextId⟩ writer payload =
        .error (roadmapError 409 "version_conflict"
          [("server_revision_no", toString roadmap'.revisionNo)])) := by
  have hsame := sameRevision_run h.good hrun hmem hmem' hid (.inl hdraft)
  constructor
  · intro session haccepted
    rcases createProposal_cases haccepted with ⟨_, haccepted⟩ | ⟨hactive, _⟩
    · exact hsame.tree (hbase.symm.trans (reviseDraft_ok haccepted).1)
    · exact nomatch hactive.symm.trans hdraft
  intro hchanged hguard
  have hstale : payload.baseRevisionNo ≠ roadmap'.revisionNo :=
    fun heq => hchanged (hsame.tree (hbase.symm.trans heq))
  have hproposed : roadmap'.status ≠ .proposed := by
    rw [hdraft]
    decide
  rw [createProposal, if_neg hproposed, if_pos hdraft, reviseDraft, hguard]
  show (if payload.baseRevisionNo ≠ roadmap'.revisionNo then _ else _) = _
  rw [if_pos hstale]

/-- A plan is imported, submitted and sent back. -/
def returnedDraft : List (Writer × Act) :=
  [(admin, .importRoadmap ⟨⟨"project"⟩, plannedDocument "Plan", true⟩),
    (admin, .request 0 (.transitionRoadmap ⟨.requestChanges, 1, some "clarify"⟩))]

def criterionChecked : List (Writer × Act) :=
  [(admin, .request 0 (.updateStepProgress "S1" ⟨none, false, none, none, some [0]⟩ 1))]

theorem draft_replacement_returnedDraft : ∃ db db' roadmap roadmap' session, Reachable db ∧
    Run Db.step (NotInPlace 0 1) db criterionChecked db' ∧ roadmap ∈ db.roadmaps ∧
    roadmap' ∈ db'.roadmaps ∧ roadmap' ≠ roadmap ∧
    createProposal ⟨roadmap', db'.nextId⟩ admin ⟨1, plannedDocument "Next", false, none⟩ =
      .ok session ∧ roadmap'.tree = roadmap.tree := by
  have hrun : (execWithin Db.step Free (Db.start [⟨"project"⟩]) returnedDraft).any fun db =>
      (execWithin Db.step (NotInPlace 0 1) db criterionChecked).any fun db' =>
      db.roadmaps.any fun roadmap => db'.roadmaps.any fun roadmap' =>
        (createProposal ⟨roadmap', db'.nextId⟩ admin
          ⟨1, plannedDocument "Next", false, none⟩).toOption.isSome &&
        (roadmap.id = 0 ∧ roadmap.revisionNo = 1 ∧ roadmap'.id = 0 ∧ roadmap'.status = .draft ∧
          roadmap' ≠ roadmap) := by decide +kernel
  obtain ⟨db, hdb, hany⟩ := Run.of_any hrun
  obtain ⟨db', hdb', hany⟩ := (Option.any_eq_true _ _).mp hany
  obtain ⟨roadmap, hmem, hany⟩ := List.any_eq_true.mp hany
  obtain ⟨roadmap', hmem', hall⟩ := List.any_eq_true.mp hany
  obtain ⟨hsome, hall⟩ := Bool.and_eq_true_iff.mp hall
  obtain ⟨session, hsession⟩ := Option.isSome_iff_exists.mp hsome
  obtain ⟨hid, hnumber, hid', hdraft, hne⟩ := of_decide_eq_true hall
  have haccepted := ok_of_toOption hsession
  have hreach : Reachable db := ⟨_, _, hdb⟩
  have hguarded := Run.of_execWithin hdb'
  refine ⟨db, db', roadmap, roadmap', session, hreach, hguarded, hmem, hmem', hne, haccepted, ?_⟩
  rw [← hid, ← hnumber] at hguarded
  exact (draft_replacement hreach hguarded hmem hmem' (hid'.trans hid.symm) hdraft
    admin ⟨1, plannedDocument "Next", false, none⟩ hnumber.symm).1 session haccepted

def phaseAdded : List (Writer × Act) :=
    [(admin, .request 0 (.createPhase ⟨"P3", "Three", none, 1⟩))]

/-- A phase is added to a draft and a document written before it is accepted. -/
theorem draft_replacement_loses_phase : ∃ db db' roadmap roadmap' session, Reachable db ∧
    Run Db.step Free db phaseAdded db' ∧ roadmap ∈ db.roadmaps ∧ roadmap' ∈ db'.roadmaps ∧
    roadmap'.id = roadmap.id ∧ roadmap'.status = .draft ∧ roadmap.revisionNo = 0 ∧
    createProposal ⟨roadmap', db'.nextId⟩ admin ⟨0, plannedDocument "Next", false, none⟩ =
      .ok session ∧
    roadmap'.tree ≠ roadmap.tree ∧ ∀ phase ∈ session.roadmap.phases, phase.key ≠ "P3" := by
  have hrun : (execWithin Db.step Free (Db.start [⟨"project"⟩])
        [(admin, .importRoadmap ⟨⟨"project"⟩, plannedDocument "Plan", false⟩)]).any fun db =>
      (execWithin Db.step Free db phaseAdded).any fun db' =>
      db.roadmaps.any fun roadmap => db'.roadmaps.any fun roadmap' =>
        (createProposal ⟨roadmap', db'.nextId⟩ admin
          ⟨0, plannedDocument "Next", false, none⟩).toOption.any fun session =>
        (roadmap'.id = roadmap.id ∧ roadmap'.status = .draft ∧ roadmap.revisionNo = 0 ∧
          roadmap'.tree ≠ roadmap.tree ∧ ∀ phase ∈ session.roadmap.phases, phase.key ≠ "P3") := by
    decide +kernel
  obtain ⟨db, hdb, hany⟩ := Run.of_any hrun
  obtain ⟨db', hdb', hany⟩ := (Option.any_eq_true _ _).mp hany
  obtain ⟨roadmap, hmem, hany⟩ := List.any_eq_true.mp hany
  obtain ⟨roadmap', hmem', hany⟩ := List.any_eq_true.mp hany
  obtain ⟨session, hsession, hall⟩ := (Option.any_eq_true _ _).mp hany
  obtain ⟨hid, hdraft, hnumber, htree, hphases⟩ := of_decide_eq_true hall
  exact ⟨db, db', roadmap, roadmap', session, ⟨_, _, hdb⟩,
    Run.of_execWithin hdb', hmem, hmem', hid, hdraft, hnumber, ok_of_toOption hsession, htree,
    hphases⟩

end StudioOS.Roadmaps
