import StudioOS.Resolution.Chains

/-!
# Resolution — Lookups

What `_resolve_node` asks of its index. It sees the index only through
the bindings of the agents it enters and of their skills
(`gather_of_same`), and where all these lookups succeed no error is
about the snapshot (`resolveNode_blameless`).
-/

namespace StudioOS.Resolution

open List

variable {modelValidate : JsonValue → Option CapabilityRequirement}
  {candidates : List RuntimeCandidate} {index index' : List ResolutionNode}
  {root : ResolutionNode}

variable {direct : Direct} {binding : NodeBinding} {node : ResolutionNode}

theorem foldlM_congr {α β ε : Type} {f g : β → α → Except ε β} {l : List α}
    (h : ∀ a ∈ l, ∀ b, f b a = g b a) (b : β) : l.foldlM f b = l.foldlM g b := by
  induction l generalizing b with
  | nil => rfl
  | cons a l ih =>
    rw [foldlM_cons, foldlM_cons, h a (.head _)]
    congr 1
    funext b'
    exact ih (fun x hx => h x (.tail _ hx)) b'

theorem foldlM_error {α β ε : Type} {f : β → α → Except ε β} {l : List α} {b : β} {e : ε}
    (h : l.foldlM f b = .error e) : ∃ a ∈ l, ∃ b', f b' a = .error e := by
  induction l generalizing b with
  | nil => cases h
  | cons a l ih =>
    rw [foldlM_cons] at h
    rcases bind_error h with ha | ⟨b', -, h⟩
    · exact ⟨a, .head _, b, ha⟩
    · obtain ⟨x, hx, hfails⟩ := ih h
      exact ⟨x, .tail _ hx, hfails⟩

/-! ## What a node looks up -/

def found (index : List ResolutionNode) (binding : NodeBinding) : Option ResolutionNode :=
  nodeAt index binding.targetResourceId binding.targetVersion

theorem lookup_ok {via} (h : lookup index binding via = .ok node) :
    found index binding = some node := by
  unfold lookup at h
  split at h
  · rename_i hnode
    cases h
    exact hnode
  · cases h

theorem checkedRelation_ok {kind via relation}
    (h : checkedRelation kind binding node via = .ok relation) : relation = binding.relation := by
  unfold checkedRelation at h
  split at h
  · split at h
    · cases h
    · rename_i hsame
      cases h
      exact not_not.mp hsame
  · cases h

theorem addBinding_ok {next} (h : addBinding index root direct binding = .ok next) :
    ∃ node, found index binding = some node ∧ direct.add root node binding.relation = .ok next := by
  obtain ⟨node, hlookup, h⟩ := bind_ok h
  obtain ⟨relation, hchecked, h⟩ := bind_ok h
  rw [checkedRelation_ok hchecked] at h
  exact ⟨node, lookup_ok hlookup, h⟩

theorem foldlM_addBinding_ok {bindings sorted}
    (h : bindings.foldlM (addBinding index root) direct = .ok sorted) :
    sorted = direct.sorted index root bindings := by
  induction bindings generalizing direct with
  | nil =>
    cases h
    simp [Direct.sorted, targetsOf]
  | cons binding bindings ih =>
    rw [foldlM_cons] at h
    obtain ⟨next, hnext, h⟩ := bind_ok h
    obtain ⟨node, hfound, hadd⟩ := addBinding_ok hnext
    rw [ih h]
    cases hrelation : binding.relation with
    | appliesRule =>
      rw [hrelation] at hadd
      unfold Direct.add at hadd
      dsimp only at hadd
      split at hadd
      · cases hadd
      · cases hadd
        simp [Direct.sorted, targetsOf_cons hfound, hrelation]
    | usesSkill | requiresModelProfile | composesAgent | referencesWorkflow =>
      rw [hrelation] at hadd
      cases hadd
      simp [Direct.sorted, targetsOf_cons hfound, hrelation]
    | refinesSkillRule | usesHook =>
      rw [hrelation] at hadd
      cases hadd

/-- Two indexes give a node the same lookups, and its skills. -/
structure SameLookups (index index' : List ResolutionNode) (root : ResolutionNode) : Prop where
  own : ∀ binding ∈ root.bindings, found index binding = found index' binding
  skills : ∀ skill ∈ targets index root .usesSkill, skill.kind = .skill →
    ∀ binding ∈ skill.bindings, found index binding = found index' binding

theorem lookup_of_same (h : found index binding = found index' binding)
    (via) : lookup index binding via = lookup index' binding via := by
  unfold lookup
  rw [show nodeAt index binding.targetResourceId binding.targetVersion =
    nodeAt index' binding.targetResourceId binding.targetVersion from h]

theorem gather_of_same (h : SameLookups index index' root) :
    gather modelValidate index root = gather modelValidate index' root := by
  have hsort : root.bindings.foldlM (addBinding index root) {} =
      root.bindings.foldlM (addBinding index' root) {} := by
    apply foldlM_congr
    intro binding hbinding direct
    unfold addBinding
    rw [lookup_of_same (h.own binding hbinding)]
  unfold gather
  rw [← hsort]
  cases hdirect : root.bindings.foldlM (addBinding index root) {} with
  | error e => rfl
  | ok direct =>
    have hskills : direct.skillNodes = targets index root .usesSkill := by
      rw [foldlM_addBinding_ok hdirect]
      exact nil_append _
    have hexpand : direct.skillNodes.mapM (expandSkill index root) =
        direct.skillNodes.mapM (expandSkill index' root) := by
      apply mapM_congr
      intro skill hskill
      rw [hskills] at hskill
      unfold expandSkill
      by_cases hkind : skill.kind = .skill
      · rw [if_neg (not_not_intro hkind), if_neg (not_not_intro hkind)]
        congr 1
        apply mapM_congr
        intro binding hbinding
        unfold skillRule
        rw [lookup_of_same (h.skills skill hskill hkind binding hbinding)]
      · rw [if_pos hkind, if_pos hkind]
    show (if direct.profileNodes.length > 1 then _ else _) =
      (if direct.profileNodes.length > 1 then _ else _)
    rw [hexpand]

theorem gather_composed {gathered} (h : gather modelValidate index root = .ok gathered) :
    gathered.composedNodes = composed index root := by
  obtain ⟨direct, hdirect, h⟩ := bind_ok h
  have hcomposed : direct.composedNodes = composed index root := by
    rw [foldlM_addBinding_ok hdirect]
    exact nil_append _
  split at h
  · cases h
  obtain ⟨expanded, -, h⟩ := bind_ok h
  obtain ⟨rules, -, h⟩ := bind_ok h
  obtain ⟨profile, -, h⟩ := bind_ok h
  cases h
  exact hcomposed

/-! ## Errors about the snapshot -/

/-- `details["reason"]`. -/
def ResolutionError.reason (error : ResolutionError) : Option Detail :=
  (error.details.find? (·.1 = "reason")).map (·.2)

/-- The error is about the snapshot: a node is missing from it, or is in
it twice and differently. -/
def ResolutionError.BlamesSnapshot (error : ResolutionError) : Prop :=
  error.reason = some (.text "missing_snapshot_node") ∨
    error.reason = some (.text "conflicting_snapshot_node")

theorem invalidInput_blameless {reason details} (hmissing : reason ≠ "missing_snapshot_node")
    (hconflicting : reason ≠ "conflicting_snapshot_node") :
    ¬ (invalidInput reason details).BlamesSnapshot := by
  have hreason : (invalidInput reason details).reason = some (.text reason) := by
    simp [invalidInput, ResolutionError.reason]
  rintro (h | h)
  · rw [hreason] at h
    exact hmissing (Detail.text.inj (Option.some.inj h))
  · rw [hreason] at h
    exact hconflicting (Detail.text.inj (Option.some.inj h))

theorem blameless_of_no_reason {error : ResolutionError} (h : error.reason = none) :
    ¬ error.BlamesSnapshot := by
  rintro (hmissing | hconflicting)
  · cases h.symm.trans hmissing
  · cases h.symm.trans hconflicting

variable {e : ResolutionError} {visited : List Uuid} {depth fuel : Nat}

theorem guardNode_blameless (h : guardNode root visited depth = .error e) : ¬ e.BlamesSnapshot := by
  unfold guardNode at h
  split at h
  · cases h
    exact invalidInput_blameless (by decide) (by decide)
  split at h
  · cases h
    exact blameless_of_no_reason (by simp [ResolutionError.reason])
  split at h
  · cases h
    exact blameless_of_no_reason (by simp [ResolutionError.reason])
  · cases h

theorem lookup_found (h : found index binding = some node)
    (via) : lookup index binding via = .ok node := by
  unfold lookup
  rw [show nodeAt index binding.targetResourceId binding.targetVersion = some node from h]

theorem checkedRelation_blameless {kind via}
    (h : checkedRelation kind binding node via = .error e) : ¬ e.BlamesSnapshot := by
  unfold checkedRelation at h
  split at h
  · split at h
    · cases h
      exact invalidInput_blameless (by decide) (by decide)
    · cases h
  · cases h
    exact invalidInput_blameless (by decide) (by decide)

theorem addBinding_blameless (hfound : found index binding = some node)
    (h : addBinding index root direct binding = .error e) : ¬ e.BlamesSnapshot := by
  unfold addBinding at h
  rw [lookup_found hfound] at h
  rcases bind_error h with hno | ⟨node', -, h⟩
  · cases hno
  rcases bind_error h with hchecked | ⟨relation, -, h⟩
  · exact checkedRelation_blameless hchecked
  unfold Direct.add at h
  split at h
  · split at h
    · cases h
      exact invalidInput_blameless (by decide) (by decide)
    · cases h
  · cases h
  · cases h
  · cases h
  · cases h
  · cases h
    exact invalidInput_blameless (by decide) (by decide)
  · cases h
    exact invalidInput_blameless (by decide) (by decide)

theorem skillRule_blameless {skill path} (hfound : found index binding = some node)
    (h : skillRule index skill path binding = .error e) : ¬ e.BlamesSnapshot := by
  unfold skillRule at h
  rw [lookup_found hfound] at h
  rcases bind_error h with hno | ⟨node', -, h⟩
  · cases hno
  rcases bind_error h with hchecked | ⟨relation, -, h⟩
  · exact checkedRelation_blameless hchecked
  split at h
  · cases h
    exact invalidInput_blameless (by decide) (by decide)
  · cases h

theorem expandSkill_blameless {skill}
    (hfound : ∀ binding ∈ skill.bindings, ∃ node, found index binding = some node)
    (h : expandSkill index root skill = .error e) : ¬ e.BlamesSnapshot := by
  unfold expandSkill at h
  split at h
  · cases h
    exact invalidInput_blameless (by decide) (by decide)
  rcases bind_error h with hrules | ⟨rules, -, h⟩
  · obtain ⟨binding, hbinding, hfails⟩ := mapM_error hrules
    obtain ⟨node, hnode⟩ := hfound binding hbinding
    exact skillRule_blameless hnode hfails
  · cases h

theorem addRule_blameless {rules entry}
    (h : addRule rules entry = .error e) : ¬ e.BlamesSnapshot := by
  unfold addRule at h
  split at h
  · cases h
    exact invalidInput_blameless (by decide) (by decide)
  split at h
  · cases h
  split at h
  · cases h
    exact invalidInput_blameless (by decide) (by decide)
  · cases h

theorem chosenProfile_blameless {profiles}
    (h : chosenProfile modelValidate root profiles = .error e) : ¬ e.BlamesSnapshot := by
  unfold chosenProfile at h
  split at h
  · cases h
  split at h
  · cases h
    exact invalidInput_blameless (by decide) (by decide)
  split at h
  · cases h
    exact invalidInput_blameless (by decide) (by decide)
  split at h
  · cases h
    exact invalidInput_blameless (by decide) (by decide)
  · cases h

/-- The bindings of a node name nodes of the index. -/
def Closed (index : List ResolutionNode) (node : ResolutionNode) : Prop :=
  ∀ binding ∈ node.bindings, ∃ target, found index binding = some target

theorem gather_blameless (hroot : Closed index root) (hindex : ∀ node ∈ index, Closed index node)
    (h : gather modelValidate index root = .error e) : ¬ e.BlamesSnapshot := by
  unfold gather at h
  rcases bind_error h with hsort | ⟨direct, hdirect, h⟩
  · obtain ⟨binding, hbinding, direct, hfails⟩ := foldlM_error hsort
    obtain ⟨node, hnode⟩ := hroot binding hbinding
    exact addBinding_blameless hnode hfails
  split at h
  · cases h
    exact invalidInput_blameless (by decide) (by decide)
  rcases bind_error h with hskills | ⟨expanded, -, h⟩
  · obtain ⟨skill, hskill, hfails⟩ := mapM_error hskills
    apply expandSkill_blameless _ hfails
    have hskills : direct.skillNodes = targets index root .usesSkill := by
      rw [foldlM_addBinding_ok hdirect]
      exact nil_append _
    rw [hskills] at hskill
    obtain ⟨binding, -, -, hfound⟩ := mem_targets hskill
    exact hindex skill (nodeAt_mem hfound).1
  rcases bind_error h with hrules | ⟨rules, -, h⟩
  · obtain ⟨entry, -, rules, hfails⟩ := foldlM_error hrules
    exact addRule_blameless hfails
  rcases bind_error h with hprofile | ⟨profile, -, h⟩
  · exact chosenProfile_blameless hprofile
  · cases h

theorem selectFrom_blameless {choices}
    (h : selectFrom candidates choices = .error e) : ¬ e.BlamesSnapshot := by
  induction choices with
  | nil => cases h
  | cons choice choices ih =>
    unfold selectFrom at h
    split at h
    · exact ih h
    · cases h
    · cases h
      exact invalidInput_blameless (by decide) (by decide)

theorem resolvedRuntime_blameless {profile}
    (h : resolvedRuntime candidates root profile = .error e) : ¬ e.BlamesSnapshot := by
  unfold resolvedRuntime at h
  rcases bind_error h with hselect | ⟨winner, -, h⟩
  · exact selectFrom_blameless hselect
  split at h
  · cases h
  dsimp only at h
  split at h
  · cases h
    exact blameless_of_no_reason (by simp [ResolutionError.reason])
  · cases h

theorem raised_error {α : Type} {result : Except ResolutionError α} {halt : Halt}
    (h : raised result = .error halt) : ∃ e, halt = .failure e ∧ result = .error e := by
  cases result with
  | error e => exact ⟨e, (Except.error.inj h).symm, rfl⟩
  | ok a => cases h

theorem raised_ok {α : Type} {result : Except ResolutionError α} {a : α}
    (h : raised result = .ok a) : result = .ok a := by
  cases result with
  | error e => cases h
  | ok b =>
    obtain rfl : b = a := Except.ok.inj h
    rfl

/-- In an index where every binding names a node, no error of the
resolution is about the snapshot. -/
theorem resolveNode_blameless (hindex : ∀ node ∈ index, Closed index node)
    (hroot : Closed index root)
    (h : resolveNode modelValidate candidates index fuel root visited depth =
      .error (.failure e)) : ¬ e.BlamesSnapshot := by
  induction fuel generalizing root visited depth with
  | zero => cases h
  | succ fuel ih =>
    rw [resolveNode_succ] at h
    rcases bind_error h with hguard | ⟨_, -, h⟩
    · obtain ⟨e', heq, hguard⟩ := raised_error hguard
      obtain rfl := Halt.failure.inj heq
      exact guardNode_blameless hguard
    rcases bind_error h with hgather | ⟨gathered, hgather, h⟩
    · obtain ⟨e', heq, hgather⟩ := raised_error hgather
      obtain rfl := Halt.failure.inj heq
      exact gather_blameless hroot hindex hgather
    rcases bind_error h with hcomposed | ⟨composedAgents, -, h⟩
    · obtain ⟨child, hchild, hfails⟩ := mapM_error hcomposed
      rw [gather_composed (raised_ok hgather)] at hchild
      obtain ⟨binding, -, -, hfound⟩ := mem_targets hchild
      rcases bind_error hfails with hfails | ⟨definition, -, hno⟩
      · exact ih (hindex child (nodeAt_mem hfound).1) hfails
      · cases hno
    rcases bind_error h with hruntime | ⟨runtime, -, h⟩
    · obtain ⟨e', heq, hruntime⟩ := raised_error hruntime
      obtain rfl := Halt.failure.inj heq
      exact resolvedRuntime_blameless hruntime
    · cases h

end StudioOS.Resolution
