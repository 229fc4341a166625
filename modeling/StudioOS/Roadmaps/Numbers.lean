import StudioOS.Roadmaps.Approved
import StudioOS.Roadmaps.History

/-!
# Numbers — what a revision number stands for

A revision is never deleted and its content never changes, a number that
is newly approved names the plan of that moment, and an archived roadmap
stays as it is.
-/

namespace StudioOS.Roadmaps

open List Runs

variable {before after roadmap : Roadmap} {otherActive : Bool} {tasks : List TaskRow}
  {session session' : Session} {writer : Writer} {request : Request} {number : Int} {whole : Prop}

/-! ## Contents -/

/-- Every revision is still there, with its content. -/
def Roadmap.Keeps (before after : Roadmap) : Prop :=
  ∀ row ∈ before.revisions, ∃ row' ∈ after.revisions,
    row'.revisionNo = row.revisionNo ∧ row'.content = row.content

theorem Roadmap.Keeps.of_eq (h : after.revisions = before.revisions) : before.Keeps after := by
  intro row hrow
  exact ⟨row, h ▸ hrow, rfl, rfl⟩

theorem Roadmap.Keeps.trans {between} (h : before.Keeps between)
    (h' : between.Keeps after) : before.Keeps after := by
  intro row hrow
  obtain ⟨row', hrow', hnumber, hcontent⟩ := h row hrow
  obtain ⟨row'', hrow'', hnumber', hcontent'⟩ := h' row' hrow'
  exact ⟨row'', hrow'', hnumber'.trans hnumber, hcontent'.trans hcontent⟩

theorem Roadmap.Keeps.of_append {added}
    (h : after.revisions = before.revisions ++ added) : before.Keeps after := by
  intro row hrow
  exact ⟨row, h ▸ mem_append_left _ hrow, rfl, rfl⟩

theorem Roadmap.Keeps.of_map {f added} (h : after.revisions = before.revisions.map f ++ added)
    (hf : ∀ row, (f row).revisionNo = row.revisionNo ∧ (f row).content = row.content) :
    before.Keeps after := by
  intro row hrow
  exact ⟨f row, h ▸ mem_append_left _ (mem_map_of_mem hrow), hf row⟩

theorem keeps_contentChanged (roadmap : Roadmap) : roadmap.Keeps (contentChanged roadmap) := by
  unfold contentChanged
  simp only []
  split
  · exact .of_append rfl
  · exact .of_eq rfl

theorem keeps_withSummary (summary) (roadmap : Roadmap) :
    roadmap.Keeps (withSummary summary roadmap) := by
  unfold withSummary
  split
  · refine .of_map (append_nil _).symm fun row => ?_
    split <;> exact ⟨rfl, rfl⟩
  · exact .of_eq rfl

theorem keeps_draftRevised (payload) (roadmap : Roadmap) :
    roadmap.Keeps (draftRevised payload roadmap) := by
  unfold draftRevised
  simp only []
  split
  · exact Roadmap.Keeps.trans (.of_append rfl) (keeps_withSummary _ _)
  · exact .of_append rfl

theorem keeps_reviewed (number) (status comment)
    (row : RevisionRow) : (if row.kind = .proposal ∧ row.revisionNo = number then
      { row with status := some status, reviewComment := comment } else row).revisionNo =
        row.revisionNo ∧
    (if row.kind = .proposal ∧ row.revisionNo = number then
      { row with status := some status, reviewComment := comment } else row).content =
        row.content := by
  split <;> exact ⟨rfl, rfl⟩

theorem keeps_transitioned (roadmap : Roadmap)
    (target payload) : roadmap.Keeps (transitioned roadmap target payload) := by
  unfold transitioned
  simp only []
  split
  · exact .of_append rfl
  simp only [applyTransition]
  split
  · exact .of_map (append_nil _).symm fun row => keeps_reviewed _ _ _ row
  · split
    · exact .of_append rfl
    · exact .of_eq rfl

theorem runRequest_keeps

    (h : runRequest otherActive tasks session writer request = .ok session') :
    session.roadmap.Keeps session'.roadmap := by
  rcases runRequest_cases h with ⟨_, _, hedit⟩ | ⟨payload, _, h⟩ | ⟨payload, _, h⟩ |
    ⟨revisionNo, payload, _, h⟩
  · cases hedit with
    | same => exact .of_eq rfl
    | content ledger _ _ _ _ _ =>
      exact Roadmap.Keeps.trans (.of_eq ledger.revisions) (keeps_contentChanged _)
    | progress ledger _ _ _ _ _ => exact .of_eq ledger.revisions
  · rcases transitionRoadmap_ok h with ⟨_, rfl⟩ | ⟨target, _, _, rfl⟩
    · exact .of_eq rfl
    · exact keeps_transitioned session.roadmap target payload
  · rcases createProposal_cases h with ⟨_, h⟩ | ⟨_, _, revision, _, _, _, _, rfl⟩
    · obtain ⟨_, _, reconciled, hreconciled, rfl⟩ := reviseDraft_ok h
      exact Roadmap.Keeps.trans (.of_eq (reconcileDocument_keeps hreconciled).ledger.revisions)
        (keeps_draftRevised payload reconciled.roadmap)
    · refine .of_map rfl fun row => ?_
      split <;> exact ⟨rfl, rfl⟩
  obtain ⟨_, revision, _, _, _, decided, hdecided, rfl⟩ := reviewProposal_ok h
  have hsame : decided.roadmap.revisions = session.roadmap.revisions := by
    cases hdecision : payload.decision with
    | requestChanges | reject =>
      rw [hdecision] at hdecided
      cases hdecided
      rfl
    | approve =>
      rw [hdecision] at hdecided
      obtain ⟨_, reconciled, hreconciled, rfl⟩ := approveProposal_ok hdecided
      exact (reconcileDocument_keeps hreconciled).ledger.revisions
  refine Roadmap.Keeps.trans (.of_eq hsame) ?_
  exact .of_map (append_nil _).symm fun row => keeps_reviewed _ _ _ row

theorem runRequest_archived

    (h : runRequest otherActive tasks session writer request = .ok session')
    (harchived : session.roadmap.status = .archived) : session' = session := by
  rcases runRequest_cases h with ⟨_, _, hedit⟩ | ⟨payload, _, h⟩ | ⟨payload, _, h⟩ |
    ⟨revisionNo, payload, _, h⟩
  · cases hedit with
    | same => rfl
    | content _ _ allowed _ _ _ | progress _ _ allowed _ _ _ =>
      rw [harchived] at allowed
      cases allowed
  · rcases transitionRoadmap_ok h with ⟨_, rfl⟩ | ⟨target, htarget, _, rfl⟩
    · rfl
    · rw [harchived] at htarget
      cases htransition : payload.transition <;> rw [htransition] at htarget <;> cases htarget
  · rcases createProposal_cases h with ⟨hdraft, _⟩ | ⟨hactive, _⟩
    · exact nomatch harchived.symm.trans hdraft
    · exact nomatch harchived.symm.trans hactive
  · exact nomatch harchived.symm.trans (reviewProposal_ok h).1

/-! ## Approvals -/

/-- The revision of a number is the plan: in its phases, and as a whole when
it was not a reviewed proposal. -/
def Roadmap.Names (roadmap : Roadmap) (number : Int) (whole : Prop) : Prop :=
  ∃ row ∈ roadmap.revisions, row.revisionNo = number ∧
    (buildDocument roadmap).phases.map (·.normal) = row.content.phases.map (·.normal) ∧
    (whole → row.content = buildDocument roadmap)

theorem Roadmap.Names.of_content {row} (hrow : row ∈ roadmap.revisions)
    (hnumber : row.revisionNo = number)
    (hcontent : row.content = buildDocument roadmap) : roadmap.Names number whole :=
  ⟨row, hrow, hnumber, by rw [hcontent], fun _ => hcontent⟩

theorem recordSnapshot_names (h : (recordSnapshot roadmap).approvedRevisionNo = some number) :
    (recordSnapshot roadmap).Names number whole :=
  .of_content (mem_append_right _ (mem_singleton_self _)) (Option.some.inj h) rfl

theorem contentChanged_names (h : (contentChanged roadmap).approvedRevisionNo = some number)
    (hnew : (contentChanged roadmap).approvedRevisionNo ≠ roadmap.approvedRevisionNo) :
    (contentChanged roadmap).Names number whole := by
  unfold contentChanged at h hnew ⊢
  simp only [] at h hnew ⊢
  split at h
  · rename_i hactive
    rw [if_pos hactive]
    exact recordSnapshot_names h
  · rename_i hactive
    rw [if_neg hactive] at hnew
    exact absurd rfl hnew

theorem transitioned_names {target payload} (hledger : Ledger roadmap)
    (h : (transitioned roadmap target payload).approvedRevisionNo = some number)
    (hnew : (transitioned roadmap target payload).approvedRevisionNo ≠ roadmap.approvedRevisionNo) :
    (transitioned roadmap target payload).Names number whole := by
  by_cases hsubmit : payload.transition = .submit
  · rw [transitioned, if_pos hsubmit] at hnew
    exact absurd rfl hnew
  rw [transitioned, if_neg hsubmit] at h hnew ⊢
  simp only [applyTransition] at h hnew ⊢
  revert h hnew
  split
  · rename_i proposal hfind
    intro h hnew
    -- an approval of the proposal that is pending: its content is the plan
    by_cases happrove : payload.transition = .approve
    · rw [if_pos happrove] at h
      by_cases hproposed : roadmap.status = .proposed
      · obtain ⟨hmem, hpending⟩ := pendingProposal_some
          ((if_pos hproposed).symm.trans hfind)
        obtain ⟨row, hrow, hrowPending, hcontent⟩ := hledger.proposed hproposed
        obtain rfl := hledger.onePending row hrow proposal hmem hrowPending hpending
        refine .of_content (mem_map_of_mem hrow) ?_ ?_
        · rw [← Option.some.inj h]
          exact (keeps_reviewed _ _ _ row).1
        · exact (keeps_reviewed _ _ _ row).2.trans hcontent
      · rw [if_neg hproposed] at hfind
        cases hfind
    · exact absurd (if_neg happrove) hnew
  · split
    · exact fun h _ => recordSnapshot_names h
    · exact fun _ hnew => absurd rfl hnew

theorem approvedRevisionNo_draftRevised (payload) (roadmap) :
    (draftRevised payload roadmap).approvedRevisionNo = roadmap.approvedRevisionNo := by
  unfold draftRevised withSummary
  simp only []
  split
  · split <;> rfl
  · rfl

/-- **A number newly approved names the plan of that moment.** -/
theorem runRequest_names (hgood : session.Good)
    (h : runRequest otherActive tasks session writer request = .ok session')
    (hnumber : session'.roadmap.approvedRevisionNo = some number)
    (hnew : session'.roadmap.approvedRevisionNo ≠ session.roadmap.approvedRevisionNo) :
    session'.roadmap.Names number (∀ revisionNo review,
      request ≠ .reviewProposal revisionNo review) := by
  rcases runRequest_cases h with ⟨_, _, hedit⟩ | ⟨payload, _, h⟩ | ⟨payload, _, h⟩ |
    ⟨revisionNo, payload, hrequest, h⟩
  · cases hedit with
    | same => exact absurd rfl hnew
    | content ledger _ _ _ _ _ =>
      rw [← ledger.approvedRevisionNo] at hnew
      exact contentChanged_names hnumber hnew
    | progress ledger _ _ _ _ _ => exact absurd ledger.approvedRevisionNo hnew
  · rcases transitionRoadmap_ok h with ⟨_, rfl⟩ | ⟨target, _, _, rfl⟩
    · exact absurd rfl hnew
    · exact transitioned_names hgood.ledger hnumber hnew
  · rcases createProposal_cases h with ⟨_, h⟩ | ⟨_, _, revision, _, _, _, _, rfl⟩
    · obtain ⟨_, _, reconciled, hreconciled, rfl⟩ := reviseDraft_ok h
      have hsame := (approvedRevisionNo_draftRevised payload reconciled.roadmap).trans
        (reconcileDocument_keeps hreconciled).ledger.approvedRevisionNo
      exact absurd hsame hnew
    · exact absurd rfl hnew
  obtain ⟨hactive, revision, hmem, rfl, hpending, decided, hdecided, rfl⟩ := reviewProposal_ok h
  cases hdecision : payload.decision with
  | requestChanges | reject =>
    rw [hdecision] at hdecided
    cases hdecided
    exact absurd rfl hnew
  | approve =>
    obtain ⟨revision', laid, hfind, hvalid, hlaid, _, hbuild⟩ :=
      reviewProposal_laid hgood hdecision h
    rw [proposalRow_of_mem hgood.ledger.numbers hmem (kind_of_pending hpending).1] at hfind
    cases hfind
    rw [hdecision] at hdecided
    obtain ⟨_, reconciled, hreconciled, rfl⟩ := approveProposal_ok hdecided
    have hrevisions := (reconcileDocument_keeps hreconciled).ledger.revisions
    refine ⟨_, mem_map_of_mem (hrevisions ▸ hmem), ?_, ?_, ?_⟩
    · rw [(keeps_reviewed _ _ _ revision).1]
      exact Option.some.inj hnumber
    · rw [(keeps_reviewed _ _ _ revision).2, ← hlaid.buildPhases hvalid, ← hbuild]
      rfl
    · exact fun hwhole => absurd hrequest (hwhole _ _)

/-- **The ledger of revisions.** -/
theorem revision_ledger {db : Db} (h : Reachable db) {roadmap : Roadmap}
    (hmem : roadmap ∈ db.roadmaps) : (roadmap.revisions.map (·.revisionNo)).Nodup ∧
    (roadmap.revisions.filter (·.isPendingProposal)).length ≤ 1 ∧
    (roadmap.status = .draft → ∀ row ∈ roadmap.revisions, ¬ row.isPendingProposal) ∧
    (roadmap.status = .proposed →
      ∃ row ∈ roadmap.revisions, row.isPendingProposal ∧ row.content = buildDocument roadmap) ∧
    (∀ number, roadmap.approvedRevisionNo = some number →
      ∃ row ∈ roadmap.revisions, row.revisionNo = number ∧ row.Applied) ∧
    (∀ other ∈ db.roadmaps, roadmap.status = .active → other.status = .active →
      roadmap.projectId = other.projectId → roadmap = other) ∧
    (∀ writer act db' roadmap' number, db.perform writer act = .ok db' →
      roadmap' ∈ db'.roadmaps → roadmap'.id = roadmap.id →
      roadmap'.approvedRevisionNo = some number →
      roadmap'.approvedRevisionNo ≠ roadmap.approvedRevisionNo →
      roadmap'.Names number (∀ revisionNo review,
        act ≠ .request roadmap.id (.reviewProposal revisionNo review))) ∧
    ∀ calls db' roadmap', Run Db.step Free db calls db' → roadmap' ∈ db'.roadmaps →
      roadmap'.id = roadmap.id →
      roadmap.Keeps roadmap' ∧ (roadmap.status = .archived → roadmap' = roadmap) := by
  have hgood := h.good
  have hledger := (hgood.good roadmap hmem).ledger
  refine ⟨hledger.numbers, ?_, hledger.draft, hledger.proposed, hledger.approved, ?_, ?_, ?_⟩
  · have hapart : roadmap.revisions.Pairwise fun a b => a.revisionNo ≠ b.revisionNo :=
      pairwise_map.mp hledger.numbers
    refine Keyed.length_filter_le_one hapart ?_
    intro a ha b hb hpa hpb hne
    exact hne (congrArg RevisionRow.revisionNo (hledger.onePending a ha b hb hpa hpb))
  · intro other hother hactive hactive' hproject
    exact Keyed.eq_of_key hgood.ids hmem hother
      (hgood.active roadmap hmem other hother hactive hactive' hproject)
  · intro writer act db' roadmap' number hperform hmem' hid hnumber hnew
    cases Db.next hperform hmem' with
    | kept hkept =>
      obtain rfl := Keyed.eq_of_key hgood.ids hkept hmem hid
      exact absurd rfl hnew
    | new hfresh => exact absurd (hid.symm.trans hfresh) (hgood.fresh roadmap hmem).ne
    | @request row request session hrow hact hrequest =>
      have hrowId := (runRequest_sameRow hrequest).id.symm.trans hid
      obtain rfl := Keyed.eq_of_key hgood.ids hrow hmem hrowId
      obtain ⟨revision, hrevision, hrevisionNo, hphases, hwhole⟩ :=
        runRequest_names (hgood.good row hrow) hrequest hnumber hnew
      refine ⟨revision, hrevision, hrevisionNo, hphases, fun hother => hwhole ?_⟩
      rintro revisionNo review rfl
      exact hother revisionNo review hact
    | hydrated hrow _ =>
      obtain rfl := Keyed.eq_of_key hgood.ids hrow hmem hid
      exact absurd rfl hnew
  · intro calls db' roadmap' hrun hmem' hid
    refine roadmap_rule (I := fun row => roadmap.Keeps row ∧
      (roadmap.status = .archived → row = roadmap)) hgood hrun hmem hmem' hid
      ⟨.of_eq rfl, fun _ => rfl⟩ ?_ ?_
    · rintro db row session writer request _ _ _ ⟨hkeeps, hsame⟩ hrequest
      refine ⟨hkeeps.trans (runRequest_keeps hrequest), fun harchived => ?_⟩
      obtain rfl := hsame harchived
      rw [runRequest_archived hrequest harchived]
    · rintro row links hallowed ⟨hkeeps, hsame⟩
      refine ⟨hkeeps, fun harchived => ?_⟩
      rw [hsame harchived, harchived] at hallowed
      cases hallowed

/-- An active plan, its proposal and the approval of it. -/
def approvedPlan : List (Writer × Act) :=
  proposedPlan "Plan" ++ [(admin, .request 0 (.reviewProposal 2 ⟨.approve, 2, none⟩))]

theorem revision_ledger_approvedPlan : ∃ db roadmap row, Reachable db ∧ roadmap ∈ db.roadmaps ∧
    roadmap.approvedRevisionNo = some 2 ∧ row ∈ roadmap.revisions ∧ row.revisionNo = 2 ∧
    row.Applied := by
  have hrun : (execWithin Db.step Free (Db.start [⟨"project"⟩]) approvedPlan).any fun db =>
      db.roadmaps.any fun roadmap => roadmap.approvedRevisionNo = some 2 := by decide +kernel
  obtain ⟨db, hdb, hany⟩ := Run.of_any hrun
  obtain ⟨roadmap, hmem, happroved⟩ := any_eq_true.mp hany
  have hreach : Reachable db := ⟨_, _, hdb⟩
  obtain ⟨_, _, _, _, hnames, _⟩ := revision_ledger hreach hmem
  obtain ⟨row, hrow, hnumber, happlied⟩ := hnames 2 (of_decide_eq_true happroved)
  exact ⟨db, roadmap, row, hreach, hmem, of_decide_eq_true happroved, hrow, hnumber, happlied⟩

/-- An active plan is completed and its proposal stays pending. -/
theorem completed_keeps_pending : ∃ db roadmap, Reachable db ∧ roadmap ∈ db.roadmaps ∧
    roadmap.status = .completed ∧ ∃ row ∈ roadmap.revisions, row.isPendingProposal := by
  have hrun : (execWithin Db.step Free (Db.start [⟨"project"⟩]) (proposedPlan "Plan" ++
        [(admin, .request 0 (.transitionRoadmap ⟨.complete, 2, none⟩))])).any fun db =>
      db.roadmaps.any fun roadmap => roadmap.status = .completed &&
        roadmap.revisions.any (·.isPendingProposal) := by decide +kernel
  obtain ⟨db, hdb, hany⟩ := Run.of_any hrun
  obtain ⟨roadmap, hmem, hboth⟩ := any_eq_true.mp hany
  obtain ⟨hstatus, hpending⟩ := Bool.and_eq_true_iff.mp hboth
  exact ⟨db, roadmap, ⟨_, _, hdb⟩, hmem, of_decide_eq_true hstatus, any_eq_true.mp hpending⟩

end StudioOS.Roadmaps
