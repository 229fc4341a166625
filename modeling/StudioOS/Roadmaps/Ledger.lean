import StudioOS.Roadmaps.Edits
import StudioOS.Roadmaps.Layout
import StudioOS.Roadmaps.Lifecycle

/-!
# Ledger — the revisions of a roadmap

What holds of the revisions of a roadmap between two requests, and how
the writes of the lifecycle keep it: numbers are new, a row keeps its
number and content, and at most one proposal is pending.
-/

namespace StudioOS.Roadmaps

open List

theorem le_foldl_max (numbers : List Int) (first : Int) :
    first ≤ numbers.foldl max first ∧ ∀ number ∈ numbers, number ≤ numbers.foldl max first := by
  induction numbers generalizing first with
  | nil => simp
  | cons number numbers ih =>
    rw [foldl_cons]
    obtain ⟨hfirst, hall⟩ := ih (max first number)
    refine ⟨(le_max_left _ _).trans hfirst, ?_⟩
    intro other hother
    rcases mem_cons.mp hother with rfl | hother
    · exact (le_max_right _ _).trans hfirst
    · exact hall other hother

variable {roadmap : Roadmap} {row : RevisionRow} {rows : List RevisionRow}
  {best : Option RevisionRow} {target : RoadmapStatus} {payload : TransitionRequest}
  {revision : RevisionRow}

theorem lt_nextRevisionNo (h : row ∈ roadmap.revisions) :
    row.revisionNo < nextRevisionNo roadmap := by
  have hle := (le_foldl_max (roadmap.revisions.map (·.revisionNo)) 0).2 row.revisionNo
    (mem_map_of_mem h)
  show row.revisionNo <
    max ((roadmap.revisions.map (·.revisionNo)).foldl max 0) roadmap.revisionNo + 1
  have := le_max_left ((roadmap.revisions.map (·.revisionNo)).foldl max 0) roadmap.revisionNo
  omega

theorem revisionNo_lt_next (roadmap) : roadmap.revisionNo < nextRevisionNo roadmap := by
  show roadmap.revisionNo <
    max ((roadmap.revisions.map (·.revisionNo)).foldl max 0) roadmap.revisionNo + 1
  have := le_max_right ((roadmap.revisions.map (·.revisionNo)).foldl max 0) roadmap.revisionNo
  omega

/-- A revision that has been the plan: a snapshot or an approved proposal. -/
def RevisionRow.Applied (row : RevisionRow) : Prop :=
  row.kind = .snapshot ∨ (row.kind = .proposal ∧ row.status = some .approved)

structure Ledger (roadmap : Roadmap) : Prop where
  numbers : (roadmap.revisions.map (·.revisionNo)).Nodup
  onePending : ∀ a ∈ roadmap.revisions, ∀ b ∈ roadmap.revisions,
    a.isPendingProposal → b.isPendingProposal → a = b
  draft : roadmap.status = .draft → ∀ row ∈ roadmap.revisions, ¬ row.isPendingProposal
  proposed : roadmap.status = .proposed →
    ∃ row ∈ roadmap.revisions, row.isPendingProposal ∧ row.content = buildDocument roadmap
  valid : roadmap.status ≠ .proposed → ∀ row ∈ roadmap.revisions, row.isPendingProposal →
    roadmapDocumentErrors row.content = []
  approved : ∀ number, roadmap.approvedRevisionNo = some number →
    ∃ row ∈ roadmap.revisions, row.revisionNo = number ∧ row.Applied

theorem Ledger.of_noPending (numbers : (roadmap.revisions.map (·.revisionNo)).Nodup)
    (hnone : ∀ row ∈ roadmap.revisions, ¬ row.isPendingProposal)
    (hstatus : roadmap.status ≠ .proposed)
    (approved : ∀ number, roadmap.approvedRevisionNo = some number →
      ∃ row ∈ roadmap.revisions, row.revisionNo = number ∧ row.Applied) : Ledger roadmap :=
  ⟨numbers, fun a ha _ _ hpending => absurd hpending (hnone a ha), fun _ => hnone,
    fun h => absurd h hstatus, fun _ row hrow hpending => absurd hpending (hnone row hrow),
    approved⟩

theorem nodup_append_next (h : (roadmap.revisions.map (·.revisionNo)).Nodup)
    (hrow : row.revisionNo = nextRevisionNo roadmap) :
    ((roadmap.revisions ++ [row]).map (·.revisionNo)).Nodup := by
  rw [map_append, map_singleton]
  refine nodup_append.mpr ⟨h, nodup_singleton _, ?_⟩
  rintro a ha b hb rfl
  obtain ⟨other, hother, heq⟩ := mem_map.mp ha
  have hlt := lt_nextRevisionNo hother
  have hb := mem_singleton.mp hb
  omega

theorem Ledger.recordSnapshot (h : Ledger roadmap)
    (hstatus : roadmap.status ≠ .proposed) : Ledger (recordSnapshot roadmap) := by
  have hmem : ∀ {row : RevisionRow}, row ∈ (StudioOS.Roadmaps.recordSnapshot roadmap).revisions →
      row.isPendingProposal → row ∈ roadmap.revisions := by
    intro row hrow hpending
    rcases mem_append.mp hrow with hrow | hrow
    · exact hrow
    · rw [mem_singleton.mp hrow] at hpending
      cases hpending
  refine ⟨nodup_append_next h.numbers rfl, ?_, ?_, fun hproposed => absurd hproposed hstatus, ?_, ?_⟩
  · exact fun a ha b hb hpa hpb => h.onePending a (hmem ha hpa) b (hmem hb hpb) hpa hpb
  · exact fun hdraft row hrow hpending => h.draft hdraft row (hmem hrow hpending) hpending
  · exact fun _ row hrow hpending => h.valid hstatus row (hmem hrow hpending) hpending
  · intro number hnumber
    exact ⟨_, mem_append_right _ (mem_singleton_self _), Option.some.inj hnumber, .inl rfl⟩

theorem Ledger.sameLedger {roadmap'} (h : Ledger roadmap) (hsame : roadmap.SameLedger roadmap')
    (hstatus : roadmap.status ≠ .proposed) :
    Ledger roadmap' := by
  refine ⟨?_, ?_, ?_, ?_, ?_, ?_⟩
  · rw [hsame.revisions]
    exact h.numbers
  · rw [hsame.revisions]
    exact h.onePending
  · rw [hsame.revisions, hsame.status]
    exact h.draft
  · rw [hsame.status]
    exact fun hproposed => absurd hproposed hstatus
  · rw [hsame.revisions, hsame.status]
    exact h.valid
  · rw [hsame.revisions, hsame.approvedRevisionNo]
    exact h.approved

theorem not_proposed_of_allowed {kind status}
    (h : writeAllowed status kind = true) : status ≠ .proposed := by
  rintro rfl
  cases kind <;> cases h

theorem Ledger.contentChanged (h : Ledger roadmap)
    (hstatus : roadmap.status ≠ .proposed) : Ledger (contentChanged roadmap) := by
  have hbumped : Ledger { roadmap with version := roadmap.version + 1 } :=
    h.sameLedger ⟨rfl, rfl, rfl, rfl, rfl, rfl⟩ hstatus
  show Ledger (if _ then _ else _)
  split
  · exact hbumped.recordSnapshot hstatus
  · exact hbumped

theorem Edit.ledger {kind tasks session session'} (h : Edit tasks session kind session')
    (hledger : Ledger session.roadmap) : Ledger session'.roadmap := by
  cases h with
  | same => exact hledger
  | content ledger _ allowed _ _ _ =>
    have hstatus := not_proposed_of_allowed allowed
    exact (hledger.sameLedger ledger hstatus).contentChanged (by rw [ledger.status]; exact hstatus)
  | progress ledger _ allowed _ _ _ =>
    exact hledger.sameLedger ledger (not_proposed_of_allowed allowed)

theorem Ledger.submit (h : Ledger roadmap) (hdraft : roadmap.status = .draft) :
    Ledger (submit roadmap) := by
  -- the only pending proposal is the one submitted
  have hpending : ∀ {row : RevisionRow}, row ∈ (StudioOS.Roadmaps.submit roadmap).revisions →
      row.isPendingProposal → row = ((StudioOS.Roadmaps.submit roadmap).revisions.getLast
        (by simp [StudioOS.Roadmaps.submit])) := by
    intro row hrow hpending
    rcases mem_append.mp hrow with hrow | hrow
    · exact absurd hpending (h.draft hdraft row hrow)
    · rw [mem_singleton.mp hrow]
      simp [StudioOS.Roadmaps.submit]
  refine ⟨nodup_append_next h.numbers rfl, ?_, nofun, ?_, ?_, ?_⟩
  · exact fun a ha b hb hpa hpb => (hpending ha hpa).trans (hpending hb hpb).symm
  · intro _
    exact ⟨_, mem_append_right _ (mem_singleton_self _), rfl, rfl⟩
  · exact fun hne => absurd rfl hne
  · intro number hnumber
    obtain ⟨row, hrow, heq, happlied⟩ := h.approved number hnumber
    exact ⟨row, mem_append_left _ hrow, heq, happlied⟩

/-! ## Reviewing -/

theorem foldl_highest_some
    (h : rows.foldl highest best = some row) : row ∈ rows ∨ best = some row := by
  induction rows generalizing best with
  | nil => exact .inr h
  | cons other rows ih =>
    rcases ih h with hmem | hbest
    · exact .inl (.tail _ hmem)
    unfold highest at hbest
    split at hbest
    · exact .inl (Option.some.inj hbest ▸ mem_cons_self)
    · split at hbest
      · exact .inl (Option.some.inj hbest ▸ mem_cons_self)
      · exact .inr hbest

theorem foldl_highest_none (h : rows.foldl highest best = none) : rows = [] := by
  induction rows generalizing best with
  | nil => rfl
  | cons other rows ih =>
    obtain rfl := ih h
    have hone : highest best other = none := h
    unfold highest at hone
    split at hone
    · cases hone
    · split at hone <;> cases hone

theorem pendingProposal_some
    (h : pendingProposal roadmap = some row) : row ∈ roadmap.revisions ∧ row.isPendingProposal := by
  rcases foldl_highest_some h with hmem | hnone
  · exact mem_filter.mp hmem
  · cases hnone

theorem pendingProposal_none (h : pendingProposal roadmap = none) :
    ∀ row ∈ roadmap.revisions, ¬ row.isPendingProposal := by
  intro row hrow hpending
  have hmem := mem_filter.mpr ⟨hrow, hpending⟩
  rw [foldl_highest_none h] at hmem
  cases hmem

theorem kind_of_pending (h : row.isPendingProposal) :
    row.kind = .proposal ∧ row.status = some .pending := by
  simpa [RevisionRow.isPendingProposal] using h

section Review

variable {revisions : List RevisionRow} {proposal : RevisionRow} {status : RevisionStatus}
  {comment : Option String}

theorem numbers_reviewRevision (number) :
    (reviewRevision number status comment revisions).map (·.revisionNo) =
      revisions.map (·.revisionNo) := by
  rw [reviewRevision, map_map]
  apply map_congr_left
  intro row _
  show (if _ then _ else row : RevisionRow).revisionNo = row.revisionNo
  split <;> rfl

theorem noPending_reviewRevision (hone : ∀ a ∈ revisions, ∀ b ∈ revisions,
      a.isPendingProposal → b.isPendingProposal → a = b)
    (hrow : proposal ∈ revisions) (hpending : proposal.isPendingProposal)
    (hstatus : status ≠ .pending) :
    ∀ row ∈ reviewRevision proposal.revisionNo status comment revisions,
      ¬ row.isPendingProposal := by
  intro row hmem hrowPending
  obtain ⟨old, hold, rfl⟩ := mem_map.mp hmem
  split at hrowPending
  · exact hstatus (Option.some.inj (kind_of_pending hrowPending).2)
  · rename_i hother
    obtain rfl := hone old hold proposal hrow hrowPending hpending
    exact hother ⟨(kind_of_pending hpending).1, rfl⟩

theorem applied_reviewRevision (hnumbers : (revisions.map (·.revisionNo)).Nodup)
    (hrow : proposal ∈ revisions) (hpending : proposal.isPendingProposal)
    (hmem : row ∈ revisions) (happlied : row.Applied) :
    row ∈ reviewRevision proposal.revisionNo status comment revisions := by
  refine mem_map.mpr ⟨row, hmem, if_neg ?_⟩
  rintro ⟨hkind, hnumber⟩
  obtain rfl := Keyed.eq_of_key hnumbers hmem hrow hnumber
  rcases happlied with hsnapshot | ⟨_, happroved⟩
  · rw [hkind] at hsnapshot
    cases hsnapshot
  · rw [(kind_of_pending hpending).2] at happroved
    cases happroved

theorem approved_reviewRevision (hrow : proposal ∈ revisions)
    (hpending : proposal.isPendingProposal) :
    ∃ row ∈ reviewRevision proposal.revisionNo .approved comment revisions,
      row.revisionNo = proposal.revisionNo ∧ row.Applied := by
  have hkind := (kind_of_pending hpending).1
  refine ⟨_, mem_map_of_mem hrow, ?_, ?_⟩
  · split <;> rfl
  · rw [if_pos ⟨hkind, rfl⟩]
    exact .inr ⟨hkind, rfl⟩

end Review

theorem Ledger.moved (h : Ledger roadmap)
    (hstatus : roadmap.status ≠ .proposed) (hdraft : target ≠ .draft)
    (hproposed : target ≠ .proposed) : Ledger { roadmap with status := target } :=
  ⟨h.numbers, h.onePending, fun heq => absurd heq hdraft, fun heq => absurd heq hproposed,
    fun _ => h.valid hstatus, h.approved⟩

theorem transitionTarget_cases {status transition}
    (h : transitionTarget status transition = some target) (hsubmit : transition ≠ .submit) :
    target ≠ .proposed ∧ (status ≠ .proposed → target ≠ .draft) ∧
      (transition = .approve → status = .proposed) := by
  cases status <;> cases transition <;> cases h <;> simp at *

theorem reviewStatus_ne_pending (transition) : reviewStatus transition ≠ .pending := by
  cases transition <;> decide

theorem Ledger.applyTransition (h : Ledger roadmap)
    (htarget : transitionTarget roadmap.status payload.transition = some target)
    (hsubmit : payload.transition ≠ .submit) : Ledger (applyTransition roadmap target payload) := by
  obtain ⟨hproposed, hdraft, happrove⟩ := transitionTarget_cases htarget hsubmit
  by_cases hstatus : roadmap.status = .proposed
  · obtain ⟨row, hrow, hpending, _⟩ := h.proposed hstatus
    cases hfind : pendingProposal roadmap with
    | none => exact absurd hpending (pendingProposal_none hfind row hrow)
    | some proposal =>
      obtain ⟨hmem, hproposal⟩ := pendingProposal_some hfind
      simp only [StudioOS.Roadmaps.applyTransition, hstatus, if_true, hfind]
      refine Ledger.of_noPending ?_ ?_ hproposed ?_
      · rw [numbers_reviewRevision]
        exact h.numbers
      · exact noPending_reviewRevision h.onePending hmem hproposal (reviewStatus_ne_pending _)
      intro number hnumber
      by_cases heq : payload.transition = .approve
      · simp only [heq, if_true, Option.some.injEq] at hnumber
        subst hnumber
        rw [heq]
        exact approved_reviewRevision hmem hproposal
      · simp only [heq, if_false] at hnumber
        obtain ⟨row, hrow, hnumber, happlied⟩ := h.approved number hnumber
        exact ⟨row, applied_reviewRevision h.numbers hmem hproposal hrow happlied, hnumber,
          happlied⟩
  · have hmoved := h.moved hstatus (hdraft hstatus) hproposed
    simp only [StudioOS.Roadmaps.applyTransition, hstatus, if_false]
    split
    · exact hmoved.recordSnapshot hproposed
    · exact hmoved

/-! ## Proposals -/

theorem validated_ok {document} (h : validated document = .ok ()) :
    roadmapDocumentErrors document = [] := by
  unfold validated at h
  split at h
  · assumption
  · cases h

theorem not_pending_supersede {revisions}
    (h : row ∈ supersedePending revisions) : ¬ row.isPendingProposal := by
  obtain ⟨old, _, rfl⟩ := mem_map.mp h
  intro hpending
  split at hpending
  · cases (kind_of_pending hpending).2
  · rename_i hold
    exact hold hpending

theorem Ledger.propose (h : Ledger roadmap) (hstatus : roadmap.status = .active)
    (hnumber : revision.revisionNo = nextRevisionNo roadmap)
    (hvalid : roadmapDocumentErrors revision.content = []) :
    Ledger { roadmap with revisions := supersedePending roadmap.revisions ++ [revision] } := by
  have hlast : ∀ {row : RevisionRow}, row ∈ supersedePending roadmap.revisions ++ [revision] →
      row.isPendingProposal → row = revision := by
    intro row hrow hpending
    rcases mem_append.mp hrow with hrow | hrow
    · exact absurd hpending (not_pending_supersede hrow)
    · exact mem_singleton.mp hrow
  refine ⟨?_, ?_, ?_, ?_, ?_, ?_⟩
  · have hnumbers : (supersedePending roadmap.revisions ++ [revision]).map (·.revisionNo) =
        (roadmap.revisions ++ [revision]).map (·.revisionNo) := by
      rw [map_append, map_append, supersedePending, map_map]
      congr 1
      apply map_congr_left
      intro row _
      show (if _ then _ else row : RevisionRow).revisionNo = row.revisionNo
      split <;> rfl
    show ((supersedePending roadmap.revisions ++ [revision]).map (·.revisionNo)).Nodup
    rw [hnumbers]
    exact nodup_append_next h.numbers hnumber
  · exact fun a ha b hb hpa hpb => (hlast ha hpa).trans (hlast hb hpb).symm
  · exact fun hdraft => nomatch hstatus.symm.trans hdraft
  · exact fun hproposed => nomatch hstatus.symm.trans hproposed
  · intro _ row hrow hpending
    rw [hlast hrow hpending]
    exact hvalid
  · intro number happroved
    obtain ⟨row, hrow, heq, happlied⟩ := h.approved number happroved
    refine ⟨row, mem_append_left _ (mem_map.mpr ⟨row, hrow, if_neg ?_⟩), heq, happlied⟩
    intro hpending
    rcases happlied with hsnapshot | ⟨_, hstatus⟩
    · rw [(kind_of_pending hpending).1] at hsnapshot
      cases hsnapshot
    · rw [(kind_of_pending hpending).2] at hstatus
      cases hstatus

theorem Ledger.mapRows (h : Ledger roadmap) {f}
    (hf : ∀ row, (f row).revisionNo = row.revisionNo ∧ (f row).kind = row.kind ∧
      (f row).status = row.status ∧ (f row).content = row.content) :
    Ledger { roadmap with revisions := roadmap.revisions.map f } := by
  have hpending : ∀ row, (f row).isPendingProposal = row.isPendingProposal := by
    intro row
    rw [RevisionRow.isPendingProposal, (hf row).2.1, (hf row).2.2.1]
    rfl
  have hall : ∀ {row : RevisionRow}, row ∈ roadmap.revisions.map f →
      ∃ old ∈ roadmap.revisions, row = f old := by
    intro row hrow
    obtain ⟨old, hold, rfl⟩ := mem_map.mp hrow
    exact ⟨old, hold, rfl⟩
  refine ⟨?_, ?_, ?_, ?_, ?_, ?_⟩
  · have hnumbers : (roadmap.revisions.map f).map (·.revisionNo) =
        roadmap.revisions.map (·.revisionNo) := by
      rw [map_map]
      exact map_congr_left fun row _ => (hf row).1
    show ((roadmap.revisions.map f).map (·.revisionNo)).Nodup
    rw [hnumbers]
    exact h.numbers
  · intro a ha b hb hpa hpb
    obtain ⟨olda, holda, rfl⟩ := hall ha
    obtain ⟨oldb, holdb, rfl⟩ := hall hb
    rw [hpending] at hpa hpb
    rw [h.onePending olda holda oldb holdb hpa hpb]
  · intro hdraft row hrow
    obtain ⟨old, hold, rfl⟩ := hall hrow
    rw [hpending]
    exact h.draft hdraft old hold
  · intro hproposed
    obtain ⟨row, hrow, hrowPending, hcontent⟩ := h.proposed hproposed
    refine ⟨f row, mem_map_of_mem hrow, (hpending row).trans hrowPending, ?_⟩
    exact (hf row).2.2.2.trans hcontent
  · intro hstatus row hrow hrowPending
    obtain ⟨old, hold, rfl⟩ := hall hrow
    rw [hpending] at hrowPending
    rw [(hf old).2.2.2]
    exact h.valid hstatus old hold hrowPending
  · intro number hnumber
    obtain ⟨row, hrow, heq, happlied⟩ := h.approved number hnumber
    refine ⟨f row, mem_map_of_mem hrow, (hf row).1.trans heq, ?_⟩
    rw [RevisionRow.Applied, (hf row).2.1, (hf row).2.2.1]
    exact happlied

theorem Ledger.withSummary (h : Ledger roadmap) (summary) :
    Ledger (withSummary summary roadmap) := by
  unfold StudioOS.Roadmaps.withSummary
  split
  · refine h.mapRows fun row => ?_
    split <;> exact ⟨rfl, rfl, rfl, rfl⟩
  · exact h

theorem Ledger.draftRevised (h : Ledger roadmap) (hdraft : roadmap.status = .draft) (payload) :
    Ledger (draftRevised payload roadmap) := by
  have hstatus : roadmap.status ≠ .proposed := by
    rw [hdraft]
    decide
  have hheader :
    Ledger { withHeader roadmap payload.document with version := roadmap.version + 1 } :=
    h.sameLedger ⟨rfl, rfl, rfl, rfl, rfl, rfl⟩ hstatus
  show Ledger (if payload.submit then _ else _)
  split
  · exact (hheader.submit hdraft).withSummary payload.summary
  have hnone := h.draft hdraft
  refine Ledger.of_noPending (nodup_append_next h.numbers rfl) ?_ hstatus ?_
  · intro row hrow hpending
    rcases mem_append.mp hrow with hrow | hrow
    · exact hnone row hrow hpending
    · rw [mem_singleton.mp hrow] at hpending
      cases hpending
  · intro number hnumber
    obtain ⟨row, hrow, heq, happlied⟩ := h.approved number hnumber
    exact ⟨row, mem_append_left _ hrow, heq, happlied⟩

/-! ## The operations on proposals -/

section Operations

variable {session session' : Session} {writer : Writer}

theorem reviseDraft_ok {payload} (h : reviseDraft session writer payload = .ok session') :
    payload.baseRevisionNo = session.roadmap.revisionNo ∧
      roadmapDocumentErrors payload.document = [] ∧
      ∃ reconciled, reconcileDocument session payload.document = .ok reconciled ∧
        session' = { reconciled with roadmap := draftRevised payload reconciled.roadmap } := by
  obtain ⟨_, _, h⟩ := bind_ok h
  obtain ⟨hbase, h⟩ := guard_ok h
  obtain ⟨_, hvalid, h⟩ := bind_ok h
  obtain ⟨_, _, h⟩ := bind_ok h
  obtain ⟨reconciled, hreconciled, h⟩ := bind_ok h
  cases h
  exact ⟨not_not.mp hbase, validated_ok hvalid, reconciled, hreconciled, rfl⟩

theorem createProposal_cases {payload} (h : createProposal session writer payload = .ok session') :
    (session.roadmap.status = .draft ∧ reviseDraft session writer payload = .ok session') ∨
      (session.roadmap.status = .active ∧ roadmapDocumentErrors payload.document = [] ∧
        ∃ revision : RevisionRow, revision.revisionNo = nextRevisionNo session.roadmap ∧
          revision.content = payload.document ∧
          revision.baseRevisionNo = some payload.baseRevisionNo ∧ revision.isPendingProposal ∧
          session' = { session with roadmap := { session.roadmap with
            revisions := supersedePending session.roadmap.revisions ++ [revision] } }) := by
  by_cases hproposed : session.roadmap.status = .proposed
  · rw [createProposal, if_pos hproposed] at h
    obtain ⟨_, _, h⟩ := bind_ok h
    obtain ⟨_, _, h⟩ := bind_ok h
    cases h
  rw [createProposal, if_neg hproposed] at h
  by_cases hdraft : session.roadmap.status = .draft
  · rw [if_pos hdraft] at h
    exact .inl ⟨hdraft, h⟩
  rw [if_neg hdraft] at h
  obtain ⟨_, hguard, h⟩ := bind_ok h
  obtain ⟨_, _, h⟩ := bind_ok h
  obtain ⟨_, hvalid, h⟩ := bind_ok h
  cases h
  have hallowed := guardWrite_ok hguard
  have hactive : session.roadmap.status = .active := by
    cases hstatus : session.roadmap.status <;> rw [hstatus] at hallowed <;>
      first | rfl | cases hallowed
  exact .inr ⟨hactive, validated_ok hvalid, _, rfl, rfl, rfl, rfl, rfl⟩

theorem reviewProposal_ok {revisionNo payload}
    (h : reviewProposal session writer revisionNo payload = .ok session') :
    session.roadmap.status = .active ∧ ∃ revision ∈ session.roadmap.revisions,
      revision.revisionNo = revisionNo ∧ revision.isPendingProposal ∧
      ∃ decided, applyDecision session revision payload.decision = .ok decided ∧
        session' = { decided with roadmap := { decided.roadmap with
          revisions := reviewRevision revisionNo (decisionStatus payload.decision)
            payload.comment decided.roadmap.revisions } } := by
  obtain ⟨_, _, h⟩ := bind_ok h
  obtain ⟨_, _, h⟩ := bind_ok h
  obtain ⟨_, _, h⟩ := bind_ok h
  split at h
  · cases h
  rename_i revision hfind
  obtain ⟨hactive, h⟩ := guard_ok h
  obtain ⟨hpending, h⟩ := guard_ok h
  obtain ⟨_, _, h⟩ := bind_ok h
  obtain ⟨decided, hdecided, h⟩ := bind_ok h
  cases h
  have hrow : revision.revisionNo = revisionNo ∧ revision.kind = .proposal := by
    simpa using List.find?_some hfind
  refine ⟨not_not.mp hactive, revision, List.mem_of_find?_eq_some hfind, hrow.1, ?_, decided,
    hdecided, rfl⟩
  simp [RevisionRow.isPendingProposal, hrow.2, not_not.mp hpending]

theorem approveProposal_ok (h : approveProposal session revision = .ok session') :
    revision.baseRevisionNo = session.roadmap.approvedRevisionNo ∧
      ∃ reconciled, reconcileDocument session revision.content = .ok reconciled ∧
        session' = { reconciled with roadmap :=
          { reconciled.roadmap with
            version := reconciled.roadmap.version + 1
            revisionNo := revision.revisionNo
            approvedRevisionNo := some revision.revisionNo } } := by
  obtain ⟨hbase, h⟩ := guard_ok h
  obtain ⟨reconciled, hreconciled, h⟩ := bind_ok h
  cases h
  exact ⟨not_not.mp hbase, reconciled, hreconciled, rfl⟩

theorem transitionRoadmap_ok {otherActive}
    (h : transitionRoadmap otherActive session writer payload = .ok session') :
    (session.roadmap.status = .active ∧ session' = session) ∨
      ∃ target, transitionTarget session.roadmap.status payload.transition = some target ∧
        (target = .active → otherActive = false) ∧
        session' = { session with roadmap := transitioned session.roadmap target payload } := by
  obtain ⟨_, _, h⟩ := bind_ok h
  obtain ⟨_, _, h⟩ := bind_ok h
  obtain ⟨_, _, h⟩ := bind_ok h
  obtain ⟨_, _, h⟩ := bind_ok h
  split at h
  · rename_i hsame
    cases h
    exact .inl ⟨hsame.1, rfl⟩
  obtain ⟨_, _, h⟩ := bind_ok h
  split at h
  · cases h
  · rename_i target htarget
    obtain ⟨hfree, h⟩ := guard_ok h
    cases h
    refine .inr ⟨target, htarget, fun hactive => ?_, rfl⟩
    simpa [hactive] using hfree

theorem submit_of_draft {status}
    (h : transitionTarget status .submit = some target) : status = .draft ∧ target = .proposed := by
  cases status <;> cases h
  exact ⟨rfl, rfl⟩

theorem Ledger.transitioned (h : Ledger roadmap)
    (htarget : transitionTarget roadmap.status payload.transition = some target) :
    Ledger (transitioned roadmap target payload) := by
  have hbumped : Ledger { roadmap with version := roadmap.version + 1 } :=
    ⟨h.numbers, h.onePending, h.draft, h.proposed, h.valid, h.approved⟩
  show Ledger (if _ then _ else _)
  split
  · rename_i hsubmit
    rw [hsubmit] at htarget
    exact hbumped.submit (submit_of_draft htarget).1
  · rename_i hsubmit
    exact hbumped.applyTransition htarget hsubmit

end Operations

end StudioOS.Roadmaps
