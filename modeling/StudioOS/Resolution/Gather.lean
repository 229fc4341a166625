import Mathlib.Data.List.Nodup
import StudioOS.Resolution.Core

/-!
# Resolution — Gather

What one call of `_resolve_node` collects from a node that is well
formed. `NodeOk` lists what can be wrong with a node apart from hooks
and from the agents it composes; a node that satisfies it either binds a
hook, and `gather_of_hook` gives the error, or is gathered completely
(`gather_ok`).
-/

namespace StudioOS.Resolution

open List

variable {modelValidate : JsonValue → Option CapabilityRequirement}
  {candidates : List RuntimeCandidate} {index : List ResolutionNode}

variable {binding : NodeBinding} {bindings : List NodeBinding} {node root skill : ResolutionNode}
  {relation : BindingRelation}

/-- The node a binding names, when it has this relation. -/
def targetBy (index : List ResolutionNode) (relation : BindingRelation) (binding : NodeBinding) :
    Option ResolutionNode :=
  if binding.relation = relation then
    nodeAt index binding.targetResourceId binding.targetVersion
  else none

/-- The nodes these bindings name by this relation, in their order. -/
def targetsOf (index : List ResolutionNode) (bindings : List NodeBinding)
    (relation : BindingRelation) : List ResolutionNode :=
  bindings.filterMap (targetBy index relation)

def targets (index : List ResolutionNode) (source : ResolutionNode) (relation : BindingRelation) :
    List ResolutionNode :=
  targetsOf index source.bindings relation

/-- The rules of a node: its own, then those its skills bind. -/
def ruleTargets (index : List ResolutionNode) (root : ResolutionNode) : List ResolutionNode :=
  targets index root .appliesRule ++
    (targets index root .usesSkill).flatMap (targets index · .refinesSkillRule)

/-- A binding whose target is in the snapshot and whose relation is the
one the matrix gives. -/
def BindingOk (index : List ResolutionNode) (source : ResolutionNode) (binding : NodeBinding) :
    Prop :=
  ∃ node, nodeAt index binding.targetResourceId binding.targetVersion = some node ∧
    bindingRelationFor source.kind node.kind = some binding.relation

def bindsHook (node : ResolutionNode) : Bool := node.bindings.any (·.relation = .usesHook)

/-- A well-formed agent node, its composed agents apart. -/
structure NodeOk (modelValidate : JsonValue → Option CapabilityRequirement)
    (candidates : List RuntimeCandidate) (index : List ResolutionNode) (root : ResolutionNode) :
    Prop where
  bindings : ∀ binding ∈ root.bindings, BindingOk index root binding
  skills : ∀ skill ∈ targets index root .usesSkill,
    ∀ binding ∈ skill.bindings, BindingOk index skill binding
  rules : ∀ rule ∈ ruleTargets index root, ∀ rule' ∈ ruleTargets index root,
    rule.resourceId = rule'.resourceId → rule.version = rule'.version
  oneProfile : (targets index root .requiresModelProfile).length ≤ 1
  requirements : ∀ profile ∈ targets index root .requiresModelProfile,
    (rawRequirements profile).isObject = true ∧
      (modelValidate (rawRequirements profile)).isSome = true
  runtime : ∀ profile,
    chosenProfile modelValidate root (targets index root .requiresModelProfile) = .ok profile →
    ∃ winner, selectRuntime candidates (.agentDefinition, root.stableKey) profile.profileKey =
        .ok winner ∧
      ∀ candidate, winner = some candidate →
        checkCompatibility profile.requirements candidate.target.capabilities = []

theorem targetsOf_cons

    (h : nodeAt index binding.targetResourceId binding.targetVersion = some node) :
    targetsOf index (binding :: bindings) relation =
      (if binding.relation = relation then [node] else []) ++
        targetsOf index bindings relation := by
  unfold targetsOf
  rw [filterMap_cons]
  split <;> rename_i hcase
  · unfold targetBy at hcase
    split at hcase <;> simp_all
  · unfold targetBy at hcase
    split at hcase <;> simp_all

theorem mem_targets {source} (h : node ∈ targets index source relation) :
    ∃ binding ∈ source.bindings, binding.relation = relation ∧
      nodeAt index binding.targetResourceId binding.targetVersion = some node := by
  obtain ⟨binding, hmem, hnode⟩ := mem_filterMap.mp h
  unfold targetBy at hnode
  split at hnode
  · rename_i hrelation
    exact ⟨binding, hmem, hrelation, hnode⟩
  · cases hnode

theorem kind_of_target {source kind} (hsource : source.kind = .agentDefinition)
    (hok : ∀ binding ∈ source.bindings, BindingOk index source binding)
    (hrelation : bindingRelationFor .agentDefinition kind = some relation)
    (h : node ∈ targets index source relation) : node.kind = kind := by
  obtain ⟨binding, hmem, rfl, hnode⟩ := mem_targets h
  obtain ⟨node', hnode', hmatrix⟩ := hok binding hmem
  obtain rfl : node = node' := Option.some.inj (hnode.symm.trans hnode')
  rw [hsource] at hmatrix
  exact bindingRelationFor_agent_inj hmatrix hrelation

theorem addBinding_of_ok {direct}
    (hnode : nodeAt index binding.targetResourceId binding.targetVersion = some node)
    (hmatrix : bindingRelationFor root.kind node.kind = some binding.relation) :
    addBinding index root direct binding = direct.add root node binding.relation := by
  have hlookup : lookup index binding root.path = .ok node := by
    simp [lookup, hnode]
  have hchecked : checkedRelation root.kind binding node root.path = .ok binding.relation := by
    simp [checkedRelation, hmatrix]
  unfold addBinding
  rw [hlookup]
  show (checkedRelation root.kind binding node root.path >>= _) = _
  rw [hchecked]
  rfl

/-- What sorting these bindings adds to `direct`. -/
def Direct.sorted (index : List ResolutionNode) (root : ResolutionNode) (direct : Direct)
    (bindings : List NodeBinding) : Direct :=
  { directRules := direct.directRules ++
      (targetsOf index bindings .appliesRule).map (·, rulePath root .appliesRule)
    skillNodes := direct.skillNodes ++ targetsOf index bindings .usesSkill
    profileNodes := direct.profileNodes ++ targetsOf index bindings .requiresModelProfile
    composedNodes := direct.composedNodes ++ targetsOf index bindings .composesAgent
    workflowNodes := direct.workflowNodes ++ targetsOf index bindings .referencesWorkflow }

theorem foldlM_addBinding (hroot : root.kind = .agentDefinition)
    (bindings : List NodeBinding) (hok : ∀ binding ∈ bindings, BindingOk index root binding)
    (hhook : ∀ binding ∈ bindings, binding.relation ≠ .usesHook) (direct : Direct) :
    bindings.foldlM (addBinding index root) direct = .ok (direct.sorted index root bindings) := by
  induction bindings generalizing direct with
  | nil => simp [Direct.sorted, targetsOf, pure, Except.pure]
  | cons binding bindings ih =>
    obtain ⟨node, hnode, hmatrix⟩ := hok binding (.head _)
    have hnothook := hhook binding (.head _)
    have hadd : ∃ direct', direct.add root node binding.relation = .ok direct' ∧
        direct'.sorted index root bindings = direct.sorted index root (binding :: bindings) := by
      rw [hroot] at hmatrix
      cases hrelation : binding.relation with
      | appliesRule =>
        have hkind : node.kind = .rule :=
          bindingRelationFor_agent_inj hmatrix (by rw [hrelation]; rfl)
        exact ⟨_, if_neg (not_not_intro hkind), by
          simp [Direct.sorted, targetsOf_cons hnode, hrelation]⟩
      | usesHook => exact absurd hrelation hnothook
      | refinesSkillRule =>
        rw [hrelation] at hmatrix
        cases hkind : node.kind <;> rw [hkind] at hmatrix <;> cases hmatrix
      | usesSkill | requiresModelProfile | composesAgent | referencesWorkflow =>
        exact ⟨_, rfl, by simp [Direct.sorted, targetsOf_cons hnode, hrelation]⟩
    obtain ⟨direct', hdirect', hsorted⟩ := hadd
    rw [foldlM_cons, addBinding_of_ok hnode hmatrix, hdirect', ← hsorted]
    exact ih (fun b hb => hok b (.tail _ hb)) (fun b hb => hhook b (.tail _ hb)) direct'

/-- The error of an agent that binds a hook. -/
def hookError (root : ResolutionNode) : ResolutionError :=
  invalidInput "unexpected_agent_relation" [("via", .text root.path)]

theorem foldlM_addBinding_hook (hroot : root.kind = .agentDefinition)
    (hok : ∀ binding ∈ bindings, BindingOk index root binding)
    (hhook : ∃ binding ∈ bindings, binding.relation = .usesHook) (direct) :
    bindings.foldlM (addBinding index root) direct = .error (hookError root) := by
  induction bindings generalizing direct with
  | nil =>
    obtain ⟨binding, hmem, -⟩ := hhook
    cases hmem
  | cons binding bindings ih =>
    obtain ⟨node, hnode, hmatrix⟩ := hok binding (.head _)
    rw [foldlM_cons, addBinding_of_ok hnode hmatrix]
    by_cases hrelation : binding.relation = .usesHook
    · rw [hrelation]
      rfl
    obtain ⟨direct', hdirect'⟩ : ∃ direct', direct.add root node binding.relation =
        .ok direct' := by
      have hone := foldlM_addBinding hroot [binding]
        (by simpa using ⟨node, hnode, hmatrix⟩) (by simpa using hrelation) direct
      rw [foldlM_cons, addBinding_of_ok hnode hmatrix] at hone
      obtain ⟨direct', hdirect', -⟩ := bind_ok hone
      exact ⟨direct', hdirect'⟩
    rw [hdirect']
    apply ih (fun b hb => hok b (.tail _ hb))
    obtain ⟨hook, hmem, hhook⟩ := hhook
    rcases mem_cons.mp hmem with rfl | hmem
    · exact absurd hhook hrelation
    · exact ⟨hook, hmem, hhook⟩

/-! ## Skills and rules -/

theorem skillRule_of_ok (hskill : skill.kind = .skill) (skillPath)
    (hok : BindingOk index skill binding) :
    ∃ node, targetBy index .refinesSkillRule binding = some node ∧ node.kind = .rule ∧
      skillRule index skill skillPath binding = .ok (node, rulePath skill .refinesSkillRule) := by
  obtain ⟨node, hnode, hmatrix⟩ := hok
  -- The only relation a skill may bind by is that of its rules.
  have hrule : node.kind = .rule ∧ binding.relation = .refinesSkillRule := by
    rw [hskill] at hmatrix
    cases hkind : node.kind <;> rw [hkind] at hmatrix <;> simp [bindingRelationFor] at hmatrix
    exact ⟨rfl, hmatrix.symm⟩
  refine ⟨node, by simp [targetBy, hrule.2, hnode], hrule.1, ?_⟩
  have hlookup : lookup index binding skillPath = .ok node := by
    simp [lookup, hnode]
  have hchecked : checkedRelation skill.kind binding node skillPath = .ok .refinesSkillRule := by
    simp [checkedRelation, hmatrix, hrule.2]
  unfold skillRule
  rw [hlookup]
  show (checkedRelation skill.kind binding node skillPath >>= _) = _
  rw [hchecked]
  show (if _ ∨ node.kind ≠ .rule then _ else _) = _
  rw [if_neg (by simp [hrule.1])]

theorem mapM_skillRule (hskill : skill.kind = .skill) {skillPath}
    (hok : ∀ binding ∈ bindings, BindingOk index skill binding) :
    bindings.mapM (skillRule index skill skillPath) =
      .ok ((targetsOf index bindings .refinesSkillRule).map
        (·, rulePath skill .refinesSkillRule)) := by
  induction bindings with
  | nil => rfl
  | cons binding bindings ih =>
    obtain ⟨node, htarget, -, hrule⟩ := skillRule_of_ok hskill skillPath (hok binding (.head _))
    rw [mapM_cons, hrule, ih fun b hb => hok b (.tail _ hb)]
    simp [targetsOf, htarget]
    rfl

theorem skill_rule_kind {rule} (hskill : skill.kind = .skill)
    (hok : ∀ binding ∈ skill.bindings, BindingOk index skill binding)
    (h : rule ∈ targets index skill .refinesSkillRule) : rule.kind = .rule := by
  obtain ⟨binding, hmem, htarget⟩ := mem_filterMap.mp h
  obtain ⟨node, htarget', hkind, -⟩ := skillRule_of_ok hskill "" (hok binding hmem)
  obtain rfl : rule = node := Option.some.inj (htarget.symm.trans htarget')
  exact hkind

def ResolvedRule.pin (rule : ResolvedRule) : Uuid × Int := (rule.resourceId, rule.version)

/-- The identity of a loaded version. -/
def ResolutionNode.pin (node : ResolutionNode) : Uuid × Int := (node.resourceId, node.version)

theorem appendPath_pins (rules) (resourceId) (path) :
    (appendPath rules resourceId path).map ResolvedRule.pin = rules.map ResolvedRule.pin := by
  unfold appendPath
  rw [map_map]
  apply map_congr_left
  intro rule _
  show ResolvedRule.pin (if _ then _ else _) = _
  split <;> rfl

theorem appendPath_ids (rules) (resourceId) (path) :
    (appendPath rules resourceId path).map (·.resourceId) = rules.map (·.resourceId) := by
  have hpins := congrArg (map Prod.fst) (appendPath_pins rules resourceId path)
  rwa [map_map, map_map] at hpins

section Merging

variable {entries done : List (ResolutionNode × RulePath)} {rules : List ResolvedRule}

/-- One rule for each resource of the entries, with all its paths. -/
structure Merges (entries : List (ResolutionNode × RulePath)) (rules : List ResolvedRule) :
    Prop where
  once : (rules.map (·.resourceId)).Nodup
  pins : ∀ pin, pin ∈ rules.map ResolvedRule.pin ↔ pin ∈ entries.map (·.1.pin)
  paths : ∀ rule ∈ rules,
    rule.paths = (entries.filter (·.1.resourceId = rule.resourceId)).map Prod.snd

def ruleConflict (resourceId : Uuid) : ResolutionError :=
  invalidInput "rule_pinned_at_two_versions" [("resource_id", .text resourceId.str)]

/-- A rule resource is pinned at two versions. -/
def Conflicting (entries : List (ResolutionNode × RulePath)) : Prop :=
  ∃ entry ∈ entries, ∃ other ∈ entries,
    entry.1.resourceId = other.1.resourceId ∧ entry.1.version ≠ other.1.version

theorem Merges.nil : Merges [] [] := ⟨nodup_nil, by simp, by simp⟩

theorem Merges.pinned {entry} (h : Merges entries rules) (hentry : entry ∈ entries) :
    ∃ rule ∈ rules, rule.resourceId = entry.1.resourceId ∧ rule.version = entry.1.version := by
  obtain ⟨rule, hrule, hpin⟩ := mem_map.mp ((h.pins _).mpr (mem_map_of_mem hentry))
  exact ⟨rule, hrule, Prod.mk.inj hpin⟩

theorem Merges.not_conflicting (h : Merges entries rules) : ¬ Conflicting entries := by
  rintro ⟨entry, hentry, other, hother, hid, hversion⟩
  obtain ⟨rule, hrule, hrid, hrversion⟩ := h.pinned hentry
  obtain ⟨rule', hrule', hrid', hrversion'⟩ := h.pinned hother
  obtain rfl := inj_on_of_nodup_map h.once hrule hrule' (hrid.trans (hid.trans hrid'.symm))
  exact hversion (hrversion.symm.trans hrversion')

theorem Merges.addRule {entry} (h : Merges done rules) (hkind : entry.1.kind = .rule) :
    (∃ next, addRule rules entry = .ok next ∧ Merges (done ++ [entry]) next) ∨
      (∃ id, addRule rules entry = .error (ruleConflict id)) ∧ Conflicting (done ++ [entry]) := by
  unfold StudioOS.Resolution.addRule
  rw [if_neg (not_not_intro hkind)]
  cases hfind : rules.find? (·.resourceId = entry.1.resourceId) with
  | none =>
    have hnew : ∀ rule ∈ rules, rule.resourceId ≠ entry.1.resourceId := by
      simpa using find?_eq_none.mp hfind
    refine .inl ⟨_, rfl, ?_, ?_, ?_⟩
    · rw [map_append]
      refine nodup_append.mpr ⟨h.once, by simp, ?_⟩
      simpa [resolvedRule] using hnew
    · intro pin
      simp [h.pins, ResolvedRule.pin, ResolutionNode.pin, resolvedRule]
    · intro rule hrule
      rw [filter_append, map_append]
      rcases mem_append.mp hrule with hold | hlast
      · simp [h.paths rule hold, Ne.symm (hnew rule hold)]
      · obtain rfl := mem_singleton.mp hlast
        have hnone :
            done.filter (·.1.resourceId = (resolvedRule entry.1 entry.2).resourceId) = [] := by
          refine filter_eq_nil_iff.mpr fun other hother hid => ?_
          obtain ⟨rule, hrule, hrid, -⟩ := h.pinned hother
          exact hnew rule hrule (hrid.trans (of_decide_eq_true hid))
        rw [hnone]
        simp [resolvedRule]
  | some existing =>
    have hmem := mem_of_find?_eq_some hfind
    have hid : existing.resourceId = entry.1.resourceId := by simpa using find?_some hfind
    dsimp only
    split
    · rename_i hversion
      obtain ⟨other, hother, hpin⟩ := mem_map.mp ((h.pins _).mp (mem_map_of_mem hmem))
      obtain ⟨hoid, hoversion⟩ := Prod.mk.inj hpin
      exact .inr ⟨⟨_, rfl⟩, other, mem_append_left _ hother, entry, by simp,
        hoid.trans hid, hoversion ▸ hversion⟩
    · rename_i hversion
      refine .inl ⟨_, rfl, ?_, ?_, ?_⟩
      · rw [appendPath_ids]
        exact h.once
      · intro pin
        rw [appendPath_pins, h.pins, map_append, mem_append]
        refine ⟨Or.inl, Or.rec id fun hlast => ?_⟩
        obtain rfl := mem_singleton.mp hlast
        exact (h.pins _).mp (mem_map.mpr ⟨existing, hmem, Prod.ext hid (not_not.mp hversion)⟩)
      · intro rule hrule
        obtain ⟨old, hold, rfl⟩ := mem_map.mp hrule
        rw [filter_append, map_append]
        split
        · rename_i hsame
          simp [h.paths old hold, hsame]
        · rename_i hother
          simp [h.paths old hold, Ne.symm hother]

theorem foldlM_addRule (h : Merges done rules) (hkind : ∀ entry ∈ entries, entry.1.kind = .rule) :
    (∃ merged, entries.foldlM addRule rules = .ok merged ∧ Merges (done ++ entries) merged) ∨
      (∃ id, entries.foldlM addRule rules = .error (ruleConflict id)) ∧
        Conflicting (done ++ entries) := by
  induction entries generalizing done rules with
  | nil => exact .inl ⟨rules, rfl, by simpa using h⟩
  | cons entry entries ih =>
    rw [foldlM_cons]
    rcases h.addRule (hkind entry (.head _)) with ⟨next, hnext, hmerges⟩ | ⟨⟨id, hfails⟩, hconflict⟩
    · rw [hnext]
      have hrest := ih hmerges fun e he => hkind e (.tail _ he)
      rwa [append_assoc] at hrest
    · rw [hfails]
      obtain ⟨a, ha, b, hb, hab⟩ := hconflict
      have hsub : done ++ [entry] ⊆ done ++ entry :: entries := by simp
      exact .inr ⟨⟨id, rfl⟩, a, hsub ha, b, hsub hb, hab⟩

end Merging

/-! ## One node -/

/-- A gathered node: everything its bindings name is there. -/
structure Gathered.Full (modelValidate : JsonValue → Option CapabilityRequirement)
    (index : List ResolutionNode) (root : ResolutionNode) (gathered : Gathered) : Prop where
  skills : gathered.skills = (targets index root .usesSkill).map (resolvedSkill root)
  rules : ∀ pin, pin ∈ gathered.rules.map ResolvedRule.pin ↔
    ∃ rule ∈ ruleTargets index root, rule.pin = pin
  workflows : gathered.workflows =
    (targets index root .referencesWorkflow).map (preserved root · .referencesWorkflow)
  composedNodes : gathered.composedNodes = targets index root .composesAgent
  profile : chosenProfile modelValidate root (targets index root .requiresModelProfile) =
    .ok gathered.profile

theorem gather_of_hook (hroot : root.kind = .agentDefinition)
    (hok : NodeOk modelValidate candidates index root) (hhook : bindsHook root = true) :
    gather modelValidate index root = .error (hookError root) := by
  have hexists : ∃ binding ∈ root.bindings, binding.relation = .usesHook := by
    simpa [bindsHook] using hhook
  unfold gather
  rw [foldlM_addBinding_hook hroot hok.bindings hexists]
  rfl

theorem chosenProfile_ok (hroot : root.kind = .agentDefinition)
    (hok : NodeOk modelValidate candidates index root) :
    ∃ profile, chosenProfile modelValidate root (targets index root .requiresModelProfile) =
      .ok profile := by
  cases hprofiles : targets index root .requiresModelProfile with
  | nil => exact ⟨{}, rfl⟩
  | cons first rest =>
    have hmem : first ∈ targets index root .requiresModelProfile := by
      rw [hprofiles]
      exact .head _
    have hkind : first.kind = .modelProfile := kind_of_target hroot hok.bindings rfl hmem
    obtain ⟨hobject, hvalid⟩ := hok.requirements first hmem
    obtain ⟨requirements, hrequirements⟩ := Option.isSome_iff_exists.mp hvalid
    exact ⟨_, by simp only [chosenProfile, hkind, hobject, hrequirements]; rfl⟩

theorem gather_of_stages {direct expanded rules profile}
    (hdirect : root.bindings.foldlM (addBinding index root) {} = .ok direct)
    (hone : ¬ direct.profileNodes.length > 1)
    (hexpanded : direct.skillNodes.mapM (expandSkill index root) = .ok expanded)
    (hrules : (direct.directRules ++ expanded.flatMap Prod.snd).foldlM addRule [] = .ok rules)
    (hprofile : chosenProfile modelValidate root direct.profileNodes = .ok profile) :
    gather modelValidate index root = .ok
      { rules := rules
        skills := expanded.map Prod.fst
        profile := profile
        composedNodes := direct.composedNodes
        workflows := direct.workflowNodes.map (preserved root · .referencesWorkflow) } := by
  unfold gather
  rw [hdirect]
  show (if direct.profileNodes.length > 1 then _ else _) = _
  rw [if_neg hone, hexpanded]
  show ((direct.directRules ++ expanded.flatMap Prod.snd).foldlM addRule [] >>= _) = _
  rw [hrules]
  show (chosenProfile modelValidate root direct.profileNodes >>= _) = _
  rw [hprofile]
  rfl

def skillsWithRules (index : List ResolutionNode) (root : ResolutionNode) :
    List (ResolvedSkill × List (ResolutionNode × RulePath)) :=
  (targets index root .usesSkill).map fun skill => (resolvedSkill root skill,
    (targets index skill .refinesSkillRule).map (·, rulePath skill .refinesSkillRule))

/-- The rules of a node in the order of the source, with their paths. -/
def ruleEntries (index : List ResolutionNode) (root : ResolutionNode) :
    List (ResolutionNode × RulePath) :=
  (targets index root .appliesRule).map (·, rulePath root .appliesRule) ++
    (skillsWithRules index root).flatMap Prod.snd

theorem ruleEntries_fst (root) :
    (ruleEntries index root).map Prod.fst = ruleTargets index root := by
  simp [ruleEntries, skillsWithRules, ruleTargets, map_flatMap, flatMap_map, Function.comp_def]

theorem gather_ok (hroot : root.kind = .agentDefinition)
    (hok : NodeOk modelValidate candidates index root) (hhook : bindsHook root = false) :
    ∃ gathered, gather modelValidate index root = .ok gathered ∧
      gathered.Full modelValidate index root := by
  have hnone : ∀ binding ∈ root.bindings, binding.relation ≠ .usesHook := by
    simpa [bindsHook] using hhook
  have hskillKind : ∀ skill ∈ targets index root .usesSkill, skill.kind = .skill :=
    fun skill h => kind_of_target hroot hok.bindings rfl h
  have hexpand : (targets index root .usesSkill).mapM (expandSkill index root) =
      .ok (skillsWithRules index root) := by
    apply mapM_ok
    intro skill hskill
    unfold expandSkill
    rw [if_neg (not_not_intro (hskillKind skill hskill)),
      mapM_skillRule (hskillKind skill hskill) (hok.skills skill hskill)]
    rfl
  have hentry : ∀ entry ∈ ruleEntries index root, entry.1 ∈ ruleTargets index root := by
    intro entry h
    rw [← ruleEntries_fst]
    exact mem_map_of_mem h
  have hruleKind : ∀ rule ∈ ruleTargets index root, rule.kind = .rule := by
    intro rule h
    rcases mem_append.mp h with h | h
    · exact kind_of_target hroot hok.bindings rfl h
    · obtain ⟨skill, hskill, hrule⟩ := mem_flatMap.mp h
      exact skill_rule_kind (hskillKind skill hskill) (hok.skills skill hskill) hrule
  have hagree : ¬ Conflicting (ruleEntries index root) := by
    rintro ⟨entry, h, entry', h', hid, hversion⟩
    exact hversion (hok.rules _ (hentry entry h) _ (hentry entry' h') hid)
  obtain ⟨rules, hrules, hmerges⟩ := (foldlM_addRule Merges.nil
    fun entry h => hruleKind _ (hentry entry h)).resolve_right fun h => hagree h.2
  obtain ⟨profile, hprofile⟩ := chosenProfile_ok hroot hok
  refine ⟨_, gather_of_stages (foldlM_addBinding hroot _ hok.bindings hnone {})
    (Nat.not_lt.mpr hok.oneProfile) hexpand hrules hprofile, ?_, ?_, rfl, rfl, hprofile⟩
  · simp [skillsWithRules, Function.comp_def]
  intro pin
  rw [hmerges.pins, nil_append]
  simp [← ruleEntries_fst]

end StudioOS.Resolution
