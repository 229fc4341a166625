import StudioOS.Roadmaps.Writes

/-!
# Documents — the rows a document leaves

Inserting a document and reconciling one come to the same rows: a row for
every phase and every step, at its place, with the content of the document.
-/

namespace StudioOS.Roadmaps

open List Rows

/-- A step of a document: the phase it stands in and its place there. -/
structure StepEntry where
  phaseKey : String
  content : StepContent
  position : Nat

def PhaseContent.entries (phase : PhaseContent) : List StepEntry :=
  phase.steps.zipIdx.map fun step => ⟨phase.key, step.1, step.2⟩

def RoadmapDocument.entries (document : RoadmapDocument) : List StepEntry :=
  document.phases.flatMap (·.entries)

theorem PhaseContent.entries_content (phase : PhaseContent) :
    phase.entries.map (·.content) = phase.steps := by
  rw [entries, map_map]
  show phase.steps.zipIdx.map (·.1) = phase.steps
  simp

theorem RoadmapDocument.entries_content (document : RoadmapDocument) :
    document.entries.map (·.content) = document.steps := by
  rw [entries, map_flatMap]
  simp only [PhaseContent.entries_content]
  rfl

theorem entries_filter {phases : List PhaseContent} (hkeys : (phases.map (·.key)).Nodup)
    {phase : PhaseContent} (hphase : phase ∈ phases) :
    (phases.flatMap (·.entries)).filter (·.phaseKey = phase.key) = phase.entries := by
  have hall : ∀ other : PhaseContent, other.entries.filter (·.phaseKey = phase.key) =
      if other.key = phase.key then other.entries else [] := by
    intro other
    split
    · rename_i hkey
      apply filter_eq_self.mpr
      intro entry hentry
      obtain ⟨_, _, rfl⟩ := mem_map.mp hentry
      simpa using hkey
    · rename_i hkey
      apply filter_eq_nil_iff.mpr
      intro entry hentry
      obtain ⟨_, _, rfl⟩ := mem_map.mp hentry
      simpa using hkey
  induction phases with
  | nil => cases hphase
  | cons other phases ih =>
    rw [map_cons, nodup_cons] at hkeys
    rw [flatMap_cons, filter_append, hall]
    have hnone : ∀ {rest : List PhaseContent}, (∀ other ∈ rest, other.key ≠ phase.key) →
        (rest.flatMap (·.entries)).filter (·.phaseKey = phase.key) = [] := by
      intro rest hrest
      apply filter_eq_nil_iff.mpr
      intro entry hentry
      obtain ⟨other, hother, hentry⟩ := mem_flatMap.mp hentry
      obtain ⟨_, _, rfl⟩ := mem_map.mp hentry
      simpa using hrest other hother
    rcases mem_cons.mp hphase with rfl | hmem
    · rw [if_pos rfl, hnone, append_nil]
      intro other hother heq
      exact hkeys.1 (heq ▸ mem_map_of_mem hother)
    · rw [if_neg, nil_append]
      · exact ih hkeys.2 hmem
      · intro heq
        exact hkeys.1 (heq ▸ mem_map_of_mem hmem)

structure PhaseRow.Shows (row : PhaseRow) (entry : PhaseContent × Nat) : Prop where
  key : row.key = entry.1.key
  position : row.position = entry.2
  title : row.title = entry.1.title
  objective : row.objective = textOrNone entry.1.objective

/-- The content of a step row, its dependencies apart. -/
def StepRow.content (row : StepRow) : StepContent :=
  { key := row.key
    title := row.title
    objective := row.objective
    context := row.context
    instructions := row.instructions
    acceptanceCriteria := row.acceptanceCriteria
    notes := row.notes
    metadata := row.metadata
    dependsOn := []
    tasks := row.taskPlan }

/-- What a row stores of a step, its dependencies apart. -/
def StepContent.stored (content : StepContent) : StepContent :=
  { content with
    objective := textOrNone content.objective
    context := textOrNone content.context
    instructions := textOrNone content.instructions
    notes := textOrNone content.notes
    dependsOn := [] }

structure StepRow.Shows (row : StepRow) (phases : List PhaseRow) (entry : StepEntry) : Prop where
  content : row.content = entry.content.stored
  position : row.position = entry.position
  phase : ∃ phase ∈ phases, phase.key = entry.phaseKey ∧ phase.id = row.phaseId

theorem StepRow.Shows.key {row : StepRow} {phases : List PhaseRow} {entry : StepEntry}
    (h : row.Shows phases entry) : row.key = entry.content.key :=
  congrArg StepContent.key h.content

theorem StepRow.Shows.of_phases {row : StepRow} {phases phases' : List PhaseRow}
    {entry : StepEntry} (h : row.Shows phases entry)
    (hphases : ∀ phase ∈ phases, phase.key = entry.phaseKey →
      ∃ phase' ∈ phases', phase'.key = phase.key ∧ phase'.id = phase.id) :
    row.Shows phases' entry := by
  obtain ⟨phase, hphase, hkey, hid⟩ := h.phase
  obtain ⟨phase', hphase', hkey', hid'⟩ := hphases phase hphase hkey
  exact ⟨h.content, h.position, phase', hphase', hkey'.trans hkey, hid'.trans hid⟩

/-! ## The loops -/

/-- The rows while a document is being written: the entries written so far
are shown. -/
structure Writing (phasesDone : List (PhaseContent × Nat)) (stepsDone : List StepEntry)
    (session : Session) : Prop where
  phaseIds : (session.roadmap.phases.map (·.id)).Nodup
  phaseKeys : (session.roadmap.phases.map (·.key)).Nodup
  phaseFresh : ∀ phase ∈ session.roadmap.phases, phase.id < session.nextId
  stepIds : (session.roadmap.steps.map (·.id)).Nodup
  stepKeys : (session.roadmap.steps.map (·.key)).Nodup
  stepFresh : ∀ step ∈ session.roadmap.steps, step.id < session.nextId
  criteria : ∀ step ∈ session.roadmap.steps, ∀ index ∈ step.criteriaChecked,
    index < step.acceptanceCriteria.length
  phases : ∀ entry ∈ phasesDone, ∃ row ∈ session.roadmap.phases, row.Shows entry
  steps : ∀ entry ∈ stepsDone, ∃ row ∈ session.roadmap.steps,
    row.Shows session.roadmap.phases entry

theorem Session.Sound.writing {session} (h : session.Sound) : Writing [] [] session :=
  ⟨h.phases.ids, h.phases.keys, h.phases.fresh, h.steps.ids, h.steps.keys, h.steps.fresh,
    h.steps.criteria, by simp, by simp⟩

section Loops

variable {phasesDone : List (PhaseContent × Nat)} {stepsDone : List StepEntry} {session : Session}

theorem nodup_upsert_ids {α : Type} {rows : List α} {idOf : α → RowId} {keyOf : α → String}
    {key : String} {update : α → α} {new : α} {nextId : RowId} (h : (rows.map idOf).Nodup)
    (hfresh : ∀ row ∈ rows, idOf row < nextId) (hupdate : ∀ row, idOf (update row) = idOf row)
    (hnew : idOf new = nextId) : ((Keyed.upsert keyOf key update new rows).map idOf).Nodup := by
  rw [Keyed.map_upsert hupdate]
  split
  · exact h
  · refine nodup_append.mpr ⟨h, nodup_singleton _, ?_⟩
    intro a ha b hb hab
    obtain ⟨row, hrow, rfl⟩ := mem_map.mp ha
    obtain rfl := mem_singleton.mp hb
    exact absurd (hab.trans hnew) (hfresh row hrow).ne

theorem Writing.phase (h : Writing phasesDone stepsDone session) {entry}
    (hkey : entry.1.key ∉ phasesDone.map (·.1.key)) :
    Writing (phasesDone ++ [entry]) stepsDone (reconcilePhase session entry.1 entry.2) := by
  refine ⟨?_, ?_, ?_, h.stepIds, h.stepKeys, ?_, h.criteria, ?_, ?_⟩
  · exact nodup_upsert_ids h.phaseIds h.phaseFresh (fun _ => rfl) rfl
  · exact Keyed.nodup_upsert (fun _ => rfl) rfl h.phaseKeys
  · refine Keyed.forall_mem_upsert (fun row hrow => ?_) (fun row hrow => ?_) (Nat.lt_succ_self _)
    · exact (h.phaseFresh row hrow).trans (Nat.lt_succ_self _)
    · exact (h.phaseFresh row hrow).trans (Nat.lt_succ_self _)
  · exact fun step hstep => (h.stepFresh step hstep).trans (Nat.lt_succ_self _)
  · intro other hother
    rcases mem_append.mp hother with hother | hother
    · -- an entry written before has another key, so its row is left alone
      obtain ⟨row, hrow, hshows⟩ := h.phases other hother
      have hne : row.key ≠ entry.1.key := by
        intro heq
        exact hkey (mem_map.mpr ⟨other, hother, hshows.key.symm.trans heq⟩)
      have hmem : row ∈ (reconcilePhase session entry.1 entry.2).roadmap.phases ↔
          row ∈ session.roadmap.phases := by
        refine Keyed.mem_upsert_of_ne ?_ ?_ hne
        · exact fun _ => rfl
        · rfl
      exact ⟨row, hmem.mpr hrow, hshows⟩
    · obtain rfl := mem_singleton.mp hother
      obtain ⟨row, hrow, hrowKey⟩ : ∃ row ∈ (reconcilePhase session other.1
          other.2).roadmap.phases, row.key = other.1.key :=
        Keyed.exists_mem_upsert (by intro _; rfl) rfl
      refine ⟨row, hrow, ?_⟩
      rcases Keyed.mem_upsert_self hrow hrowKey with ⟨old, _, hold, rfl⟩ | ⟨_, rfl⟩
      · exact ⟨hold, rfl, rfl, rfl⟩
      · exact ⟨rfl, rfl, rfl, rfl⟩
  · intro other hother
    obtain ⟨row, hrow, hshows⟩ := h.steps other hother
    refine ⟨row, hrow, hshows.of_phases fun phase hphase _ => ?_⟩
    obtain ⟨phase', hphase', heq⟩ : ∃ phase' ∈ (reconcilePhase session entry.1
        entry.2).roadmap.phases, (phase'.key, phase'.id) = (phase.key, phase.id) :=
      Keyed.exists_mem_upsert_of_mem (g := fun row : PhaseRow => (row.key, row.id))
        (by intro _; rfl) hphase
    exact ⟨phase', hphase', congrArg Prod.fst heq, congrArg Prod.snd heq⟩

theorem Writing.step (h : Writing phasesDone stepsDone session) {entry}
    (hkey : entry.content.key ∉ stepsDone.map (·.content.key)) {phase}
    (hphase : phase ∈ session.roadmap.phases) (hphaseKey : phase.key = entry.phaseKey) :
    Writing phasesDone (stepsDone ++ [entry])
      (reconcileStep phase.id session entry.content entry.position) := by
  refine ⟨h.phaseIds, h.phaseKeys, ?_, ?_, ?_, ?_, ?_, h.phases, ?_⟩
  · exact fun row hrow => (h.phaseFresh row hrow).trans (Nat.lt_succ_self _)
  · exact nodup_upsert_ids h.stepIds h.stepFresh (fun _ => rfl) rfl
  · exact Keyed.nodup_upsert (fun _ => rfl) rfl h.stepKeys
  · refine Keyed.forall_mem_upsert (fun row hrow => ?_) (fun row hrow => ?_) (Nat.lt_succ_self _)
    · exact (h.stepFresh row hrow).trans (Nat.lt_succ_self _)
    · exact (h.stepFresh row hrow).trans (Nat.lt_succ_self _)
  · refine Keyed.forall_mem_upsert h.criteria (fun row hrow index hindex => ?_)
      (fun _ h => nomatch h)
    have hchecked : index ∈ if entry.content.acceptanceCriteria ≠ row.acceptanceCriteria then []
        else row.criteriaChecked := hindex
    split at hchecked
    · cases hchecked
    · rename_i hsame
      show index < entry.content.acceptanceCriteria.length
      rw [not_not.mp hsame]
      exact h.criteria row hrow index hchecked
  · intro other hother
    rcases mem_append.mp hother with hother | hother
    · obtain ⟨row, hrow, hshows⟩ := h.steps other hother
      have hne : row.key ≠ entry.content.key := by
        intro heq
        exact hkey (mem_map.mpr ⟨other, hother, hshows.key.symm.trans heq⟩)
      have hmem : row ∈ (reconcileStep phase.id session entry.content
          entry.position).roadmap.steps ↔ row ∈ session.roadmap.steps := by
        refine Keyed.mem_upsert_of_ne ?_ ?_ hne
        · exact fun _ => rfl
        · rfl
      exact ⟨row, hmem.mpr hrow, hshows⟩
    · obtain rfl := mem_singleton.mp hother
      obtain ⟨row, hrow, hrowKey⟩ : ∃ row ∈ (reconcileStep phase.id session other.content
          other.position).roadmap.steps, row.key = other.content.key :=
        Keyed.exists_mem_upsert (by intro _; rfl) rfl
      refine ⟨row, hrow, ?_⟩
      rcases Keyed.mem_upsert_self hrow hrowKey with ⟨old, _, hold, rfl⟩ | ⟨_, rfl⟩
      · refine ⟨?_, rfl, phase, hphase, hphaseKey, rfl⟩
        show StepContent.mk old.key _ _ _ _ _ _ _ _ _ = _
        rw [hold]
        rfl
      · exact ⟨rfl, rfl, phase, hphase, hphaseKey, rfl⟩

theorem Writing.reconcilePhases (h : Writing phasesDone stepsDone session) (entries)
    (hkeys : ((phasesDone ++ entries).map (·.1.key)).Nodup) :
    Writing (phasesDone ++ entries) stepsDone
      (entries.foldl (fun session phaseIn => reconcilePhase session phaseIn.1 phaseIn.2) session) := by
  induction entries generalizing phasesDone session with
  | nil =>
    rw [append_nil]
    exact h
  | cons entry entries ih =>
    have hfresh : entry.1.key ∉ phasesDone.map (·.1.key) := by
      rw [map_append, map_cons] at hkeys
      intro hmem
      exact (nodup_append.mp hkeys).2.2 _ hmem _ mem_cons_self rfl
    rw [List.append_cons] at hkeys ⊢
    exact ih (h.phase hfresh) hkeys

theorem Writing.steps_of_phase (h : Writing phasesDone stepsDone session) {phase}
    (hphase : phase ∈ session.roadmap.phases) {entries}
    (hentries : ∀ entry ∈ entries, phase.key = entry.phaseKey)
    (hkeys : ((stepsDone ++ entries).map (·.content.key)).Nodup) :
    Writing phasesDone (stepsDone ++ entries) (entries.foldl
      (fun session entry => reconcileStep phase.id session entry.content entry.position) session) := by
  induction entries generalizing stepsDone session with
  | nil =>
    rw [append_nil]
    exact h
  | cons entry entries ih =>
    have hfresh : entry.content.key ∉ stepsDone.map (·.content.key) := by
      rw [map_append, map_cons] at hkeys
      intro hmem
      exact (nodup_append.mp hkeys).2.2 _ hmem _ mem_cons_self rfl
    rw [List.append_cons] at hkeys ⊢
    exact ih (h.step hfresh hphase (hentries entry mem_cons_self)) hphase
      (fun other hother => hentries other (.tail _ hother)) hkeys

theorem foldl_entries (phaseIn : PhaseContent) (phaseId session) :
    phaseIn.steps.zipIdx.foldl
        (fun session stepIn => reconcileStep phaseId session stepIn.1 stepIn.2) session =
      phaseIn.entries.foldl
        (fun session entry => reconcileStep phaseId session entry.content entry.position)
        session := by
  rw [PhaseContent.entries, foldl_map]

theorem Writing.reconcileSteps (h : Writing phasesDone stepsDone session) {phaseIn}
    (hdone : phaseIn.key ∈ phasesDone.map (·.1.key))
    (hkeys : ((stepsDone ++ phaseIn.entries).map (·.content.key)).Nodup) :
    Writing phasesDone (stepsDone ++ phaseIn.entries) (reconcileSteps session phaseIn) := by
  obtain ⟨entry, hentry, heq⟩ := mem_map.mp hdone
  obtain ⟨row, hrow, hshows⟩ := h.phases entry hentry
  have hfind : session.roadmap.phases.find? (·.key = phaseIn.key) = some row := by
    rw [← heq, ← hshows.key]
    exact Keyed.find?_of_mem _ h.phaseKeys hrow
  have hsteps : StudioOS.Roadmaps.reconcileSteps session phaseIn = phaseIn.steps.zipIdx.foldl
      (fun session stepIn => reconcileStep row.id session stepIn.1 stepIn.2) session := by
    unfold StudioOS.Roadmaps.reconcileSteps
    rw [hfind]
  show Writing _ _ (StudioOS.Roadmaps.reconcileSteps session phaseIn)
  rw [hsteps]
  rw [foldl_entries]
  refine h.steps_of_phase hrow ?_ hkeys
  intro other hother
  obtain ⟨_, _, rfl⟩ := mem_map.mp hother
  exact hshows.key.trans heq

theorem Writing.reconcileAllSteps (h : Writing phasesDone stepsDone session)
    (phases : List PhaseContent)
    (hdone : ∀ phaseIn ∈ phases, phaseIn.key ∈ phasesDone.map (·.1.key))
    (hkeys : ((stepsDone ++ phases.flatMap (·.entries)).map (·.content.key)).Nodup) :
    Writing phasesDone (stepsDone ++ phases.flatMap (·.entries))
      (phases.foldl StudioOS.Roadmaps.reconcileSteps session) := by
  induction phases generalizing stepsDone session with
  | nil => simpa using h
  | cons phaseIn phases ih =>
    rw [flatMap_cons, ← append_assoc] at hkeys ⊢
    have hfirst : ((stepsDone ++ phaseIn.entries).map (·.content.key)).Nodup := by
      rw [map_append] at hkeys
      exact (nodup_append.mp hkeys).1
    exact ih (h.reconcileSteps (hdone phaseIn mem_cons_self) hfirst)
      (fun other hother => hdone other (.tail _ hother)) hkeys

end Loops

end StudioOS.Roadmaps
