import StudioOS.Roadmaps.Plan
import StudioOS.Roadmaps.Structure

/-!
# Writes — what the writes of a plan keep

Every operation on a plan is made of a few writes: a row added, a row
changed in place, rows put in a new order, rows left out. Each keeps its
part of a sound plan.
-/

namespace StudioOS.Roadmaps

open List Rows

/-! ## Rows changed in place -/

section InPlace

variable {γ : Type} {id : RowId}

theorem map_updatePhaseRow {update : PhaseRow → PhaseRow} {g : PhaseRow → γ}
    (hg : ∀ row, g (update row) = g row) (phases : List PhaseRow) :
    (updatePhaseRow id update phases).map g = phases.map g := by
  rw [updatePhaseRow, map_map]
  apply map_congr_left
  intro row _
  show g (if row.id = id then update row else row) = g row
  split
  · exact hg row
  · rfl

theorem map_updateStepRow {update} {g : StepRow → γ}
    (hg : ∀ row, g (update row) = g row) (steps : List StepRow) :
    (updateStepRow id update steps).map g = steps.map g := by
  rw [updateStepRow, map_map]
  apply map_congr_left
  intro row _
  show g (if row.id = id then update row else row) = g row
  split
  · exact hg row
  · rfl

theorem filter_updateStepRow {update p} (hp : ∀ row, p (update row) = p row) (steps) :
    (updateStepRow id update steps).filter p = updateStepRow id update (steps.filter p) := by
  rw [updateStepRow, filter_map]
  show _ = (steps.filter p).map _
  congr 1
  apply filter_congr
  intro row _
  show p (if row.id = id then update row else row) = p row
  split
  · exact hp row
  · rfl

theorem mem_updateStepRow {update steps row} (h : row ∈ updateStepRow id update steps) :
    row ∈ steps ∨ ∃ old ∈ steps, old.id = id ∧ row = update old := by
  obtain ⟨old, hold, rfl⟩ := mem_map.mp h
  split
  · rename_i hid
    exact .inr ⟨old, hold, hid, rfl⟩
  · exact .inl hold

theorem map_repositionPhases {g : PhaseRow → γ}
    (hg : ∀ row position, g { row with position := position } = g row) (phases : List PhaseRow) :
    (repositionPhases ids phases).map g = phases.map g := by
  rw [repositionPhases, map_map]
  exact map_congr_left fun row _ => hg row _

theorem map_repositionSteps {g : StepRow → γ}
    (hg : ∀ row position, g { row with position := position } = g row) (steps : List StepRow) :
    (repositionSteps ids steps).map g = steps.map g := by
  rw [repositionSteps, map_map]
  exact map_congr_left fun row _ => hg row _

theorem filter_repositionSteps {p}
    (hp : ∀ row position, p { row with position := position } = p row) (steps) :
    (repositionSteps ids steps).filter p = repositionSteps ids (steps.filter p) := by
  rw [repositionSteps, filter_map]
  show _ = (steps.filter p).map _
  congr 1
  exact filter_congr fun row _ => hp row _

theorem placed_repositionSteps {ids steps} (hnodup : ids.Nodup)
    (hids : (steps.map (·.id)).Perm ids) : Placed (·.position) (repositionSteps ids steps) := by
  refine Placed.of_idxOf (fun row : StepRow => row.id) ?_ hnodup ?_
  · rw [map_repositionSteps (fun _ _ => rfl)]
    exact hids
  · intro row hrow
    obtain ⟨old, hold, rfl⟩ := mem_map.mp hrow
    exact if_pos (hids.mem_iff.mp (mem_map_of_mem hold))

end InPlace

section Phases

variable {phases : List PhaseRow} {nextId : RowId}

theorem PhasesSound.append (h : PhasesSound phases nextId) {row} (hid : row.id = nextId)
    (hkey : row.key ∉ phases.map (·.key))
    (hposition : row.position = phases.length) : PhasesSound (phases ++ [row]) (nextId + 1) := by
  refine ⟨?_, ?_, h.positions.append hposition, ?_⟩
  · rw [map_append, map_singleton]
    refine nodup_append.mpr ⟨h.ids, nodup_singleton _, ?_⟩
    intro a ha b hb hab
    obtain ⟨phase, hphase, rfl⟩ := mem_map.mp ha
    obtain rfl := mem_singleton.mp hb
    exact absurd (hab.trans hid) (h.fresh phase hphase).ne
  · rw [map_append, map_singleton]
    refine nodup_append.mpr ⟨h.keys, nodup_singleton _, ?_⟩
    rintro a ha b hb rfl
    obtain rfl := mem_singleton.mp hb
    exact hkey ha
  · intro phase hphase
    rcases mem_append.mp hphase with hphase | hphase
    · exact (h.fresh phase hphase).trans (Nat.lt_succ_self _)
    · obtain rfl := mem_singleton.mp hphase
      exact hid ▸ Nat.lt_succ_self _

theorem PhasesSound.update (h : PhasesSound phases nextId) {id update}
    (hid : ∀ row, (update row).id = row.id) (hkey : ∀ row, (update row).key = row.key)
    (hposition : ∀ row, (update row).position = row.position) :
    PhasesSound (updatePhaseRow id update phases) nextId := by
  refine ⟨?_, ?_, ?_, ?_⟩
  · rw [map_updatePhaseRow hid]
    exact h.ids
  · rw [map_updatePhaseRow hkey]
    exact h.keys
  · apply h.positions.map
    intro row _
    split
    · exact hposition row
    · rfl
  · intro phase hphase
    obtain ⟨old, hold, rfl⟩ := mem_map.mp hphase
    split
    · rw [hid]
      exact h.fresh old hold
    · exact h.fresh old hold

theorem PhasesSound.reposition (h : PhasesSound phases nextId) {left} (hleft : left.Sublist phases)
    {ids} (hids : (left.map (·.id)).Perm ids) :
    PhasesSound (repositionPhases ids left) nextId := by
  have hnodup : ids.Nodup := hids.nodup_iff.mp ((hleft.map _).nodup h.ids)
  refine ⟨?_, ?_, ?_, ?_⟩
  · rw [map_repositionPhases (fun _ _ => rfl)]
    exact (hleft.map _).nodup h.ids
  · rw [map_repositionPhases (fun _ _ => rfl)]
    exact (hleft.map _).nodup h.keys
  · refine Placed.of_idxOf (fun row : PhaseRow => row.id) ?_ hnodup ?_
    · rw [map_repositionPhases (fun _ _ => rfl)]
      exact hids
    · intro row hrow
      obtain ⟨old, hold, rfl⟩ := mem_map.mp hrow
      exact if_pos (hids.mem_iff.mp (mem_map_of_mem hold))
  · intro phase hphase
    obtain ⟨old, hold, rfl⟩ := mem_map.mp hphase
    exact h.fresh old (hleft.subset hold)

theorem PhasesSound.mono (h : PhasesSound phases nextId) {nextId'}
    (hle : nextId ≤ nextId') : PhasesSound phases nextId' :=
  ⟨h.ids, h.keys, h.positions, fun phase hphase => (h.fresh phase hphase).trans_le hle⟩

end Phases

/-! ## Steps -/

section Steps

variable {phases : List PhaseRow} {steps : List StepRow} {nextId : RowId}

theorem StepsSound.mono (h : StepsSound phases steps nextId) {nextId'}
    (hle : nextId ≤ nextId') : StepsSound phases steps nextId' :=
  { h with fresh := fun step hstep => (h.fresh step hstep).trans_le hle }

theorem StepsSound.of_phases (h : StepsSound phases steps nextId) {phases'}
    (hids : ∀ id ∈ phases.map (·.id), id ∈ phases'.map (·.id)) : StepsSound phases' steps nextId :=
  { h with parents := fun step hstep => hids _ (h.parents step hstep) }

theorem StepsSound.append (h : StepsSound phases steps nextId) (row) (hid : row.id = nextId)
    (hkey : row.key ∉ steps.map (·.key)) (hparent : row.phaseId ∈ phases.map (·.id))
    (hposition : row.position = (steps.filter (·.phaseId = row.phaseId)).length)
    (hcriteria : ∀ index ∈ row.criteriaChecked, index < row.acceptanceCriteria.length)
    (hplan : (row.taskPlan.map (·.hydrationKey)).Nodup) :
    StepsSound phases (steps ++ [row]) (nextId + 1) := by
  have hall : ∀ {P : StepRow → Prop}, (∀ step ∈ steps, P step) → P row →
      ∀ step ∈ steps ++ [row], P step := by
    intro P hold hnew step hstep
    rcases mem_append.mp hstep with hstep | hstep
    · exact hold step hstep
    · obtain rfl := mem_singleton.mp hstep
      exact hnew
  refine ⟨?_, ?_, hall h.parents hparent, ?_, hall h.criteria hcriteria, hall h.plans hplan, ?_⟩
  · rw [map_append, map_singleton]
    refine nodup_append.mpr ⟨h.ids, nodup_singleton _, ?_⟩
    intro a ha b hb hab
    obtain ⟨step, hstep, rfl⟩ := mem_map.mp ha
    obtain rfl := mem_singleton.mp hb
    exact absurd (hab.trans hid) (h.fresh step hstep).ne
  · rw [map_append, map_singleton]
    refine nodup_append.mpr ⟨h.keys, nodup_singleton _, ?_⟩
    rintro a ha b hb rfl
    obtain rfl := mem_singleton.mp hb
    exact hkey ha
  · intro phaseId
    rw [filter_append]
    by_cases hphase : row.phaseId = phaseId
    · subst hphase
      have hone : [row].filter (·.phaseId = row.phaseId) = [row] := by simp
      rw [hone]
      exact (h.positions _).append hposition
    · have hnone : [row].filter (·.phaseId = phaseId) = [] := by simp [hphase]
      rw [hnone, append_nil]
      exact h.positions phaseId
  · refine hall (fun step hstep => ?_) ?_
    · exact (h.fresh step hstep).trans (Nat.lt_succ_self _)
    · exact hid ▸ Nat.lt_succ_self _

theorem StepsSound.update (h : StepsSound phases steps nextId) {id update}
    (hid : ∀ row, (update row).id = row.id) (hkey : ∀ row, (update row).key = row.key)
    (hphase : ∀ row, (update row).phaseId = row.phaseId)
    (hposition : ∀ row, (update row).position = row.position)
    (hcriteria : ∀ row ∈ steps, row.id = id →
      ∀ index ∈ (update row).criteriaChecked, index < (update row).acceptanceCriteria.length)
    (hplan : ∀ row ∈ steps, row.id = id → ((update row).taskPlan.map (·.hydrationKey)).Nodup) :
    StepsSound phases (updateStepRow id update steps) nextId := by
  have hall : ∀ {P : StepRow → Prop}, (∀ step ∈ steps, P step) →
      (∀ row ∈ steps, row.id = id → P (update row)) →
      ∀ step ∈ updateStepRow id update steps, P step := by
    intro P hold hnew step hstep
    rcases mem_updateStepRow hstep with hstep | ⟨old, holdMem, holdId, rfl⟩
    · exact hold step hstep
    · exact hnew old holdMem holdId
  refine ⟨?_, ?_, ?_, ?_, hall h.criteria hcriteria, hall h.plans hplan, ?_⟩
  · rw [map_updateStepRow hid]
    exact h.ids
  · rw [map_updateStepRow hkey]
    exact h.keys
  · refine hall h.parents fun row hrow _ => ?_
    rw [hphase]
    exact h.parents row hrow
  · intro phaseId
    rw [filter_updateStepRow (fun row => by rw [hphase])]
    apply (h.positions phaseId).map
    intro row _
    split
    · exact hposition row
    · rfl
  · refine hall h.fresh fun row hrow _ => ?_
    rw [hid]
    exact h.fresh row hrow

theorem StepsSound.reposition (h : StepsSound phases steps nextId) {left}
    (hleft : left.Sublist steps) (phaseId) {ids}
    (hids : ((left.filter (·.phaseId = phaseId)).map (·.id)).Perm ids)
    (hothers : ∀ other, other ≠ phaseId →
      left.filter (·.phaseId = other) = steps.filter (·.phaseId = other)) :
    StepsSound phases (repositionSteps ids left) nextId := by
  have hnodup : (left.map (·.id)).Nodup := (hleft.map _).nodup h.ids
  have hidsNodup : ids.Nodup := hids.nodup_iff.mp ((filter_sublist.map _).nodup hnodup)
  have hall : ∀ {P : StepRow → Prop},
      (∀ row position, P row → P { row with position := position }) →
      (∀ step ∈ steps, P step) → ∀ step ∈ repositionSteps ids left, P step := by
    intro P hP hold step hstep
    obtain ⟨old, holdMem, rfl⟩ := mem_map.mp hstep
    exact hP old _ (hold old (hleft.subset holdMem))
  refine ⟨?_, ?_, hall (fun _ _ => id) h.parents, ?_, hall (fun _ _ => id) h.criteria,
    hall (fun _ _ => id) h.plans, hall (fun _ _ => id) h.fresh⟩
  · rw [map_repositionSteps (fun _ _ => rfl)]
    exact hnodup
  · rw [map_repositionSteps (fun _ _ => rfl)]
    exact (hleft.map _).nodup h.keys
  intro other
  rw [filter_repositionSteps (fun _ _ => rfl)]
  by_cases hphase : other = phaseId
  · subst hphase
    exact placed_repositionSteps hidsNodup hids
  rw [hothers other hphase]
  apply (h.positions other).map
  intro row hrow
  refine if_neg fun hmem => hphase ?_
  -- an id of the numbered phase is that of no step of another
  have hrow' : row ∈ left.filter (·.phaseId = other) := by
    rw [hothers other hphase]
    exact hrow
  obtain ⟨twin, htwin, heq⟩ := mem_map.mp (hids.mem_iff.mpr hmem)
  have hsame := Keyed.eq_of_key hnodup (mem_of_mem_filter htwin)
    (mem_of_mem_filter hrow') heq
  have hphase' : twin.phaseId = phaseId := by simpa using of_mem_filter htwin
  have hother' : row.phaseId = other := by simpa using of_mem_filter hrow'
  rw [← hother', ← hsame, hphase']

theorem StepsSound.keep (h : StepsSound phases steps nextId) (phases') (keep : RowId → Bool)
    (hphases : ∀ id ∈ phases.map (·.id), keep id → id ∈ phases'.map (·.id)) :
    StepsSound phases' (steps.filter fun step => keep step.phaseId) nextId := by
  have hsub : (steps.filter fun step => keep step.phaseId).Sublist steps := filter_sublist
  refine ⟨(hsub.map _).nodup h.ids, (hsub.map _).nodup h.keys, ?_, ?_,
    fun step hstep => h.criteria step (hsub.subset hstep),
    fun step hstep => h.plans step (hsub.subset hstep),
    fun step hstep => h.fresh step (hsub.subset hstep)⟩
  · intro step hstep
    obtain ⟨hmem, hkeep⟩ := mem_filter.mp hstep
    exact hphases _ (h.parents step hmem) hkeep
  intro phaseId
  rw [filter_filter]
  by_cases hkeep : keep phaseId
  · have heq : steps.filter (fun step => decide (step.phaseId = phaseId) && keep step.phaseId) =
        steps.filter (·.phaseId = phaseId) := by
      apply filter_congr
      intro step _
      by_cases hphase : step.phaseId = phaseId <;> simp [hphase, hkeep]
    rw [heq]
    exact h.positions phaseId
  · have heq : steps.filter (fun step => decide (step.phaseId = phaseId) && keep step.phaseId) =
        [] := by
      apply filter_eq_nil_iff.mpr
      intro step _
      by_cases hphase : step.phaseId = phaseId <;> simp [hphase, hkeep]
    rw [heq]
    exact Placed.nil

end Steps

section Graph

variable {steps : List StepRow}

theorem GraphSound.sub {steps' deps deps'} (h : GraphSound steps deps) (hsub : deps'.Sublist deps)
    (hinside : ∀ dep ∈ deps',
      dep.stepId ∈ steps'.map (·.id) ∧ dep.dependsOnId ∈ steps'.map (·.id)) :
    GraphSound steps' deps' :=
  ⟨hsub.nodup h.edges, hinside, Subrelation.wf (fun hwaits => hsub.subset hwaits) h.acyclic⟩

theorem GraphSound.of_steps {steps' deps} (h : GraphSound steps deps)
    (hids : ∀ id ∈ steps.map (·.id), id ∈ steps'.map (·.id)) : GraphSound steps' deps :=
  h.sub (.refl _) fun dep hdep => ⟨hids _ (h.inside dep hdep).1, hids _ (h.inside dep hdep).2⟩

theorem GraphSound.append {deps} (h : GraphSound steps deps) (row : StepRow) (targets : List RowId)
    (hfresh : row.id ∉ steps.map (·.id)) (htargets : ∀ target ∈ targets, target ∈ steps.map (·.id))
    (hnodup : targets.Nodup) : GraphSound (steps ++ [row])
      (deps ++ targets.map fun target => (⟨row.id, target⟩ : DependencyRow)) := by
  have hnew : ∀ {dep : DependencyRow},
      dep ∈ targets.map (fun target => (⟨row.id, target⟩ : DependencyRow)) →
      dep.stepId = row.id ∧ dep.dependsOnId ∈ targets := by
    intro dep hdep
    obtain ⟨target, htarget, rfl⟩ := mem_map.mp hdep
    exact ⟨rfl, htarget⟩
  have hold : ∀ {id : RowId}, id ∈ steps.map (·.id) → id ∈ (steps ++ [row]).map (·.id) := by
    intro id hid
    rw [map_append]
    exact mem_append_left _ hid
  refine ⟨?_, ?_, ?_⟩
  · refine nodup_append.mpr ⟨h.edges, hnodup.map ?_, ?_⟩
    · intro a b hab
      exact congrArg DependencyRow.dependsOnId hab
    · rintro a ha b hb rfl
      exact hfresh ((hnew hb).1 ▸ (h.inside a ha).1)
  · intro dep hdep
    rcases mem_append.mp hdep with hdep | hdep
    · exact ⟨hold (h.inside dep hdep).1, hold (h.inside dep hdep).2⟩
    · refine ⟨?_, hold (htargets _ (hnew hdep).2)⟩
      rw [(hnew hdep).1]
      simp
  -- an old step waits for what it waited for before
  have hacc : ∀ id, id ≠ row.id →
      Acc (WaitsFor (deps ++ targets.map fun target => (⟨row.id, target⟩ : DependencyRow))) id := by
    intro id
    induction id using h.acyclic.induction with
    | _ id ih =>
      intro hne
      constructor
      intro target hwaits
      rcases mem_append.mp hwaits with hmem | hmem
      · refine ih target hmem ?_
        rintro rfl
        exact hfresh (h.inside _ hmem).2
      · exact absurd (hnew hmem).1 hne
  constructor
  intro id
  by_cases hid : id = row.id
  · subst hid
    constructor
    intro target hwaits
    apply hacc
    rintro rfl
    rcases mem_append.mp hwaits with hmem | hmem
    · exact hfresh (h.inside _ hmem).2
    · exact hfresh (htargets _ (hnew hmem).2)
  · exact hacc id hid

end Graph

section Links

variable {steps : List StepRow} {links : List LinkRow}

theorem LinksSound.sub {steps' links'} (h : LinksSound steps links) (hsub : links'.Sublist links)
    (hinside : ∀ link ∈ links', link.stepId ∈ steps'.map (·.id)) : LinksSound steps' links' :=
  ⟨hinside, h.apart.sublist hsub⟩

theorem LinksSound.of_steps {steps'} (h : LinksSound steps links)
    (hids : ∀ id ∈ steps.map (·.id), id ∈ steps'.map (·.id)) : LinksSound steps' links :=
  h.sub (.refl _) fun link hlink => hids _ (h.inside link hlink)

theorem LinksSound.append (h : LinksSound steps links) {link}
    (hinside : link.stepId ∈ steps.map (·.id)) (hapart : ∀ old ∈ links, old.Apart link) :
    LinksSound steps (links ++ [link]) := by
  refine ⟨?_, pairwise_append.mpr ⟨h.apart, pairwise_singleton _ _, ?_⟩⟩
  · intro other hother
    rcases mem_append.mp hother with hother | hother
    · exact h.inside other hother
    · obtain rfl := mem_singleton.mp hother
      exact hinside
  · intro old hold other hother
    obtain rfl := mem_singleton.mp hother
    exact hapart old hold

end Links

end StudioOS.Roadmaps
