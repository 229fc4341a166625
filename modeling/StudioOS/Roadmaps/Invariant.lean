import StudioOS.Roadmaps.Ledger
import StudioOS.Roadmaps.System

/-!
# Invariant — what every request keeps

The plan of every roadmap stays sound and its ledger in order under any
sequence of requests: the operations of the lifecycle on top of the
edits, then the request, then the run.
-/

namespace StudioOS.Roadmaps

open Rows Runs

/-! ## One roadmap -/

/-- A roadmap between two requests. -/
structure Session.Good (session : Session) : Prop where
  sound : session.Sound
  ledger : Ledger session.roadmap

theorem plan_applyTransition (roadmap)
    (target payload) : (applyTransition roadmap target payload).plan = roadmap.plan := by
  simp only [applyTransition]
  split
  · rfl
  · split <;> rfl

theorem plan_transitioned (roadmap)
    (target payload) : (transitioned roadmap target payload).plan = roadmap.plan := by
  show Roadmap.plan (if _ then _ else _) = _
  split
  · rfl
  · rw [plan_applyTransition]
    rfl

theorem plan_withSummary (summary) (roadmap) :
    (withSummary summary roadmap).plan = roadmap.plan := by
  unfold withSummary
  split <;> rfl

theorem plan_draftRevised (payload) (roadmap) :
    (draftRevised payload roadmap).plan = roadmap.plan := by
  show Roadmap.plan (if _ then _ else _) = _
  split
  · rw [plan_withSummary]
    rfl
  · rfl

section Request

variable {tasks : List TaskRow} {session session' : Session} {writer : Writer}

theorem updateRoadmap_edit {payload expectedVersion}
    (h : updateRoadmap session writer payload expectedVersion = .ok session') :
    Edit tasks session .content session' := by
  obtain ⟨_, hguard, h⟩ := bind_ok h
  obtain ⟨_, _, h⟩ := bind_ok h
  obtain ⟨_, _, h⟩ := bind_ok h
  cases h
  exact .content ⟨rfl, rfl, rfl, rfl, rfl, rfl⟩ rfl (guardWrite_ok hguard) (Nat.le_refl _)
    (fun _ hlink => hlink) id

theorem runRequest_cases {otherActive request}
    (h : runRequest otherActive tasks session writer request = .ok session') :
    (∃ kind, (kind = .content → request.editsContent) ∧ Edit tasks session kind session') ∨
      (∃ payload, request = .transitionRoadmap payload ∧
        transitionRoadmap otherActive session writer payload = .ok session') ∨
      (∃ payload, request = .createProposal payload ∧
        createProposal session writer payload = .ok session') ∨
      ∃ revisionNo payload, request = .reviewProposal revisionNo payload ∧
        reviewProposal session writer revisionNo payload = .ok session' := by
  cases request with
  | createPhase payload => exact .inl ⟨.content, fun _ => rfl, createPhase_edit h⟩
  | updatePhase key payload version => exact .inl ⟨.content, fun _ => rfl, updatePhase_edit h⟩
  | reorderPhases payload => exact .inl ⟨.content, fun _ => rfl, reorderPhases_edit h⟩
  | deletePhase key version => exact .inl ⟨.content, fun _ => rfl, deletePhase_edit h⟩
  | createStep phaseKey payload => exact .inl ⟨.content, fun _ => rfl, createStep_edit h⟩
  | updateStep key payload version => exact .inl ⟨.content, fun _ => rfl, updateStep_edit h⟩
  | reorderSteps phaseKey payload => exact .inl ⟨.content, fun _ => rfl, reorderSteps_edit h⟩
  | deleteStep key version => exact .inl ⟨.content, fun _ => rfl, deleteStep_edit h⟩
  | updateStepProgress key payload version => exact .inl ⟨.progress, nofun, updateStepProgress_edit h⟩
  | addDependency payload => exact .inl ⟨.content, fun _ => rfl, addDependency_edit h⟩
  | removeDependency payload => exact .inl ⟨.content, fun _ => rfl, removeDependency_edit h⟩
  | linkTask key taskId =>
    refine .inl ⟨.progress, nofun, linkTask_edit ?_ h⟩
    intro row hrow
    exact List.mem_map_of_mem (List.mem_of_find?_eq_some hrow)
  | unlinkTask key taskId => exact .inl ⟨.progress, nofun, unlinkTask_edit h⟩
  | updateRoadmap payload version => exact .inl ⟨.content, fun _ => rfl, updateRoadmap_edit h⟩
  | transitionRoadmap payload => exact .inr (.inl ⟨payload, rfl, h⟩)
  | createProposal payload => exact .inr (.inr (.inl ⟨payload, rfl, h⟩))
  | reviewProposal revisionNo payload => exact .inr (.inr (.inr ⟨revisionNo, payload, rfl, h⟩))

theorem createProposal_good {payload} (h : createProposal session writer payload = .ok session')
    (hgood : session.Good) :
    session'.Good := by
  rcases createProposal_cases h with ⟨hdraft, h⟩ | ⟨hactive, hvalid, revision, hnumber, hcontent, _,
    _, rfl⟩
  · obtain ⟨_, hvalid, reconciled, hreconciled, rfl⟩ := reviseDraft_ok h
    have hkeeps := reconcileDocument_keeps hreconciled
    constructor
    · show (draftRevised payload reconciled.roadmap).plan.Sound _
      rw [plan_draftRevised]
      exact reconcileDocument_sound hreconciled (valid_of_no_errors hvalid) hgood.sound
    · have hstatus : session.roadmap.status ≠ .proposed := by
        rw [hdraft]
        decide
      exact (hgood.ledger.sameLedger hkeeps.ledger hstatus).draftRevised
        (hkeeps.ledger.status.trans hdraft) payload
  · exact ⟨hgood.sound, hgood.ledger.propose hactive hnumber (hcontent ▸ hvalid)⟩

/-- A committed approval: the plan is that of the proposal, and its ledger
is that of the roadmap before, with the proposal approved. -/
theorem applyDecision_good {revision decision comment decided}
    (hactive : session.roadmap.status = .active) (hmem : revision ∈ session.roadmap.revisions)
    (hpending : revision.isPendingProposal)
    (h : applyDecision session revision decision = .ok decided) (hgood : session.Good) :
    Session.Good { decided with roadmap := { decided.roadmap with
      revisions := reviewRevision revision.revisionNo (decisionStatus decision) comment
        decided.roadmap.revisions } } := by
  have hstatus : session.roadmap.status ≠ .proposed := by
    rw [hactive]
    decide
  have hledger := hgood.ledger
  -- a decision that only records the review
  have hrecorded : ∀ {decision : ReviewDecision}, decision ≠ .approve →
      Session.Good { session with roadmap := { session.roadmap with
        revisions := reviewRevision revision.revisionNo (decisionStatus decision) comment
          session.roadmap.revisions } } := by
    intro decision hdecision
    refine ⟨hgood.sound, Ledger.of_noPending ?_ ?_ hstatus ?_⟩
    · rw [numbers_reviewRevision]
      exact hledger.numbers
    · refine noPending_reviewRevision hledger.onePending hmem hpending ?_
      cases decision <;> decide
    · intro number hnumber
      obtain ⟨row, hrow, heq, happlied⟩ := hledger.approved number hnumber
      exact ⟨row, applied_reviewRevision hledger.numbers hmem hpending hrow happlied, heq, happlied⟩
  cases decision with
  | requestChanges | reject =>
    cases h
    exact hrecorded (by decide)
  | approve =>
    obtain ⟨_, reconciled, hreconciled, rfl⟩ := approveProposal_ok h
    have hvalid := valid_of_no_errors (hledger.valid hstatus revision hmem hpending)
    have hsame := (reconcileDocument_keeps hreconciled).ledger
    have hsound : reconciled.Sound := reconcileDocument_sound hreconciled hvalid hgood.sound
    refine ⟨hsound, ?_⟩
    refine Ledger.of_noPending ?_ ?_ (by rw [← hsame.status] at hstatus; exact hstatus) ?_
    · show ((reviewRevision _ _ _ reconciled.roadmap.revisions).map _).Nodup
      rw [numbers_reviewRevision, hsame.revisions]
      exact hledger.numbers
    · show ∀ row ∈ reviewRevision _ _ _ reconciled.roadmap.revisions, _
      rw [hsame.revisions]
      exact noPending_reviewRevision hledger.onePending hmem hpending (by decide)
    · intro number hnumber
      cases hnumber
      show ∃ row ∈ reviewRevision _ _ _ reconciled.roadmap.revisions, _
      rw [hsame.revisions]
      exact approved_reviewRevision hmem hpending

/-- **One request keeps a roadmap good.** -/
theorem runRequest_good {otherActive request}
    (h : runRequest otherActive tasks session writer request = .ok session')
    (hgood : session.Good) : session'.Good := by
  rcases runRequest_cases h with ⟨_, _, hedit⟩ | ⟨payload, _, h⟩ | ⟨payload, _, h⟩ |
    ⟨revisionNo, payload, _, h⟩
  · exact ⟨hedit.sound hgood.sound, hedit.ledger hgood.ledger⟩
  · rcases transitionRoadmap_ok h with ⟨_, rfl⟩ | ⟨target, htarget, _, rfl⟩
    · exact hgood
    · refine ⟨?_, hgood.ledger.transitioned htarget⟩
      show (transitioned session.roadmap target payload).plan.Sound _
      rw [plan_transitioned]
      exact hgood.sound
  · exact createProposal_good h hgood
  · obtain ⟨hactive, revision, hmem, rfl, hpending, decided, hdecided, rfl⟩ := reviewProposal_ok h
    exact applyDecision_good hactive hmem hpending hdecided hgood

end Request

end StudioOS.Roadmaps
