import StudioOS.Resolution.Loader
import StudioOS.Resolution.Lookups

/-!
# Resolution — Precedence

Where several entries answer to one key: the runtimes of a node, the rules that it and its skills
bind, and the definitions of one key.
-/

namespace StudioOS.Resolution

open List Authz AiLibrary

variable {modelValidate : JsonValue → Option CapabilityRequirement} {index : List ResolutionNode}
  {root : ResolutionNode}

theorem resolveNode_ok {candidates fuel visited depth definition}
    (h : resolveNode modelValidate candidates index fuel root visited depth = .ok definition) :
    ∃ gathered composed runtime, gather modelValidate index root = .ok gathered ∧
      resolvedRuntime candidates root gathered.profile = .ok runtime ∧
      definition = assemble root gathered composed runtime := by
  cases fuel with
  | zero => cases h
  | succ fuel =>
    rw [resolveNode_succ] at h
    obtain ⟨_, -, h⟩ := bind_ok h
    obtain ⟨gathered, hgather, h⟩ := bind_ok h
    obtain ⟨composed, -, h⟩ := bind_ok h
    obtain ⟨runtime, hruntime, h⟩ := bind_ok h
    cases h
    exact ⟨gathered, composed, runtime, raised_ok hgather, raised_ok hruntime, rfl⟩

/-! ## The runtime of a node -/

section Runtimes

variable {candidates candidates' : List RuntimeCandidate} {agentKey : LibraryKind × String}
  {profileKey : Option (LibraryKind × String)} {c : RuntimeCandidate}

/-- The level and the key of a candidate. -/
def RuntimeCandidate.slotOf (c : RuntimeCandidate) : RuntimeLevel × LibraryKind × String :=
  (c.level, c.kind, c.stableKey)

/-- `(level, agent before profile)`, as one number. -/
def rankOf (agentKey : LibraryKind × String) (choice : RuntimeLevel × LibraryKind × String) : Nat :=
  2 * levelOrder.idxOf choice.1 + if choice.2 = agentKey then 0 else 1

/-- The live candidates of the two keys. -/
def liveFor (candidates : List RuntimeCandidate) (agentKey : LibraryKind × String)
    (profileKey : Option (LibraryKind × String)) : List RuntimeCandidate :=
  candidates.filter fun c => c.live && c.slotOf.2 ∈ agentKey :: profileKey.toList

/-- Those of them whose rank is minimal. -/
def firsts (candidates : List RuntimeCandidate) (agentKey : LibraryKind × String)
    (profileKey : Option (LibraryKind × String)) : List RuntimeCandidate :=
  (liveFor candidates agentKey profileKey).filter fun w =>
    (liveFor candidates agentKey profileKey).all fun c =>
      rankOf agentKey w.slotOf ≤ rankOf agentKey c.slotOf

/-- The only one is returned, and two are an error. -/
def Selected : List RuntimeCandidate → Except ResolutionError (Option RuntimeCandidate) → Prop
  | [], outcome => outcome = .ok none
  | [w], outcome => outcome = .ok (some w)
  | _ :: _ :: _, outcome => ∃ e, outcome = .error e

/-- What `select_runtime` tries, in its order. -/
def choices (agentKey : LibraryKind × String) (profileKey : Option (LibraryKind × String)) :
    List (RuntimeLevel × LibraryKind × String) :=
  levelOrder.flatMap fun level => (agentKey :: profileKey.toList).map (level, ·)

theorem mem_liveMatches {slot} :
    c ∈ liveMatches candidates slot ↔ c ∈ candidates ∧ c.live = true ∧ c.slotOf = slot := by
  simp [liveMatches, RuntimeCandidate.slotOf, Prod.ext_iff, and_assoc]

theorem mem_choices {slot} :
    slot ∈ choices agentKey profileKey ↔ slot.2 ∈ agentKey :: profileKey.toList := by
  have hlevel : slot.1 ∈ levelOrder := by cases slot.1 <;> decide
  constructor
  · intro h
    obtain ⟨_, -, h⟩ := mem_flatMap.mp h
    obtain ⟨key, hkey, heq⟩ := mem_map.mp h
    rwa [← heq]
  · exact fun h => mem_flatMap.mpr ⟨slot.1, hlevel, mem_map_of_mem h⟩

theorem mem_liveFor : c ∈ liveFor candidates agentKey profileKey ↔
    c ∈ liveMatches candidates c.slotOf ∧ c.slotOf ∈ choices agentKey profileKey := by
  rw [mem_liveMatches, mem_choices]
  simp [liveFor, and_assoc]

theorem choices_sorted :
    (choices agentKey profileKey).Pairwise fun a b => rankOf agentKey a ≤ rankOf agentKey b := by
  have hlevels : levelOrder.Pairwise fun a b => levelOrder.idxOf a < levelOrder.idxOf b := by decide
  refine pairwise_flatMap.mpr ⟨fun level _ => ?_, hlevels.imp fun hlt a ha b hb => ?_⟩
  · cases profileKey <;> simp [rankOf]
  · obtain ⟨_, -, rfl⟩ := mem_map.mp ha
    obtain ⟨_, -, rfl⟩ := mem_map.mp hb
    simp only [rankOf]
    split <;> omega

theorem rankOf_inj {a b} (ha : a ∈ choices agentKey profileKey)
    (hb : b ∈ choices agentKey profileKey) (h : rankOf agentKey a = rankOf agentKey b) : a = b := by
  obtain ⟨level, key⟩ := a
  obtain ⟨level', key'⟩ := b
  rw [mem_choices, mem_cons, Option.mem_toList] at ha hb
  have hsame : levelOrder.idxOf level = levelOrder.idxOf level' → level = level' := by
    cases level <;> cases level' <;> decide
  have hlevel : level = level' := by
    apply hsame
    simp only [rankOf] at h
    split at h <;> split at h <;> omega
  subst hlevel
  rcases ha with rfl | ha <;> rcases hb with rfl | hb <;> simp_all [rankOf]

/-- The loops end at the first level and key that has a match. -/
theorem selectFrom_selected (choices) :
    Selected ((choices.find? (liveMatches candidates · ≠ [])).elim [] (liveMatches candidates))
      (selectFrom candidates choices) := by
  induction choices with
  | nil => rfl
  | cons choice choices ih =>
    unfold selectFrom
    split
    · rename_i hnone
      simpa [hnone] using ih
    · rename_i w hone
      simp [hone, Selected]
    · rename_i hmany
      simp [hmany, Selected]

/-- The matches at that level and key are the candidates of minimal rank. -/
theorem firsts_eq : firsts candidates agentKey profileKey =
    ((choices agentKey profileKey).find? (liveMatches candidates · ≠ [])).elim []
      (liveMatches candidates) := by
  cases hfind : (choices agentKey profileKey).find? (liveMatches candidates · ≠ []) with
  | none =>
    refine eq_nil_iff_forall_not_mem.mpr fun c hc => ?_
    obtain ⟨hmatch, htried⟩ := mem_liveFor.mp (mem_filter.mp hc).1
    exact find?_eq_none.mp hfind _ htried (decide_eq_true (ne_nil_of_mem hmatch))
  | some choice =>
    obtain ⟨hfound, before, after, hsplit, hbefore⟩ := find?_eq_some_iff_append.mp hfind
    have hsorted := @choices_sorted agentKey profileKey
    rw [hsplit] at hsorted
    -- a candidate is tried at this choice or after it
    have hafter : ∀ c ∈ liveFor candidates agentKey profileKey, c.slotOf ∈ choice :: after := by
      intro c hc
      obtain ⟨hmatch, htried⟩ := mem_liveFor.mp hc
      rw [hsplit] at htried
      refine (mem_append.mp htried).resolve_left fun hearly => ?_
      simpa [ne_nil_of_mem hmatch] using hbefore _ hearly
    have hleast : ∀ c ∈ liveFor candidates agentKey profileKey,
        rankOf agentKey choice ≤ rankOf agentKey c.slotOf := by
      intro c hc
      rcases mem_cons.mp (hafter c hc) with heq | hlater
      · rw [heq]
      · exact (pairwise_cons.mp (pairwise_append.mp hsorted).2.1).1 _ hlater
    have htried : choice ∈ choices agentKey profileKey := by simp [hsplit]
    obtain ⟨w, hw⟩ := exists_mem_of_ne_nil _ (of_decide_eq_true hfound)
    obtain ⟨-, -, hslot⟩ := mem_liveMatches.mp hw
    have hfirst : ∀ c ∈ liveFor candidates agentKey profileKey,
        ((liveFor candidates agentKey profileKey).all fun d =>
          rankOf agentKey c.slotOf ≤ rankOf agentKey d.slotOf) = decide (c.slotOf = choice) := by
      intro c hc
      rw [Bool.eq_iff_iff, all_eq_true, decide_eq_true_iff]
      constructor
      · intro hall
        have hle := of_decide_eq_true (hall w (mem_liveFor.mpr (hslot ▸ ⟨hw, htried⟩)))
        exact rankOf_inj (mem_liveFor.mp hc).2 htried (Nat.le_antisymm (hslot ▸ hle) (hleast c hc))
      · intro heq d hd
        exact decide_eq_true (heq ▸ hleast d hd)
    rw [firsts, filter_congr hfirst, liveFor, filter_filter]
    refine filter_congr fun c _ => ?_
    have hkey := mem_choices.mp htried
    rw [Bool.eq_iff_iff]
    simp only [RuntimeCandidate.slotOf, Prod.ext_iff, Bool.and_eq_true, decide_eq_true_iff]
    constructor
    · rintro ⟨⟨hlevel, hkind, hname⟩, hlive, -⟩
      exact ⟨⟨⟨hlive, hlevel⟩, hkind⟩, hname⟩
    · rintro ⟨⟨⟨hlive, hlevel⟩, hkind⟩, hname⟩
      have heq : (c.kind, c.stableKey) = choice.2 := Prod.ext hkind hname
      exact ⟨⟨hlevel, hkind, hname⟩, hlive, decide_eq_true (heq ▸ hkey)⟩

theorem selectFrom_perm (h : (candidates.filter (·.live)).Perm (candidates'.filter (·.live)))
    (choices) :
    selectFrom candidates choices = selectFrom candidates' choices := by
  induction choices with
  | nil => rfl
  | cons slot choices ih =>
    have hperm : (liveMatches candidates slot).Perm (liveMatches candidates' slot) := by
      have := h.filter fun c => c.level = slot.1 && c.kind = slot.2.1 && c.stableKey = slot.2.2
      simpa [liveMatches, filter_filter, Bool.and_comm, Bool.and_left_comm] using this
    unfold selectFrom
    cases hmatches : liveMatches candidates slot with
    | nil =>
      rw [hmatches] at hperm
      rw [nil_perm.mp hperm]
      exact ih
    | cons w rest =>
      rw [hmatches] at hperm
      cases rest with
      | nil => rw [← singleton_perm.mp hperm]
      | cons c rest =>
        rcases hmatches' : liveMatches candidates' slot with _ | ⟨_, _ | ⟨_, _⟩⟩
        · simpa [hmatches'] using hperm.length_eq
        · simpa [hmatches'] using hperm.length_eq
        · rfl

/-- What `select_runtime` does with these candidates. -/
structure Selects (candidates : List RuntimeCandidate) (agentKey : LibraryKind × String)
    (profileKey : Option (LibraryKind × String)) : Prop where
  selected : Selected (firsts candidates agentKey profileKey)
    (selectRuntime candidates agentKey profileKey)
  absent : firsts candidates agentKey profileKey = [] ↔ liveFor candidates agentKey profileKey = []
  same : ∀ candidates', (candidates.filter (·.live)).Perm (candidates'.filter (·.live)) →
    selectRuntime candidates agentKey profileKey = selectRuntime candidates' agentKey profileKey

theorem selects (candidates agentKey profileKey) : Selects candidates agentKey profileKey := by
  refine ⟨firsts_eq ▸ selectFrom_selected _, ⟨fun hnone => ?_, fun hnone => ?_⟩,
    fun _ hperm => selectFrom_perm hperm _⟩
  swap
  · simp [firsts, hnone]
  refine eq_nil_iff_forall_not_mem.mpr fun c hc => ?_
  obtain ⟨hmatch, htried⟩ := mem_liveFor.mp hc
  rw [firsts_eq] at hnone
  cases hfind : (choices agentKey profileKey).find? (liveMatches candidates · ≠ []) with
  | none => exact find?_eq_none.mp hfind _ htried (decide_eq_true (ne_nil_of_mem hmatch))
  | some choice =>
    rw [hfind] at hnone
    have hfound := find?_some hfind
    exact absurd hnone (of_decide_eq_true hfound)

theorem resolveNode_runtime {modelValidate index fuel root visited depth definition}
    (h : resolveNode modelValidate candidates index fuel root visited depth = .ok definition) :
    ∃ gathered winner, gather modelValidate index root = .ok gathered ∧
      selectRuntime candidates (.agentDefinition, root.stableKey) gathered.profile.profileKey =
        .ok winner ∧
      ∀ w ∈ winner, checkCompatibility gathered.profile.requirements w.target.capabilities = [] := by
  obtain ⟨gathered, _, runtime, hgather, hruntime, -⟩ := resolveNode_ok h
  obtain ⟨winner, hwinner, hruntime⟩ := bind_ok hruntime
  refine ⟨gathered, winner, hgather, hwinner, ?_⟩
  cases winner with
  | none => simp
  | some w =>
    dsimp only at hruntime
    split at hruntime
    · cases hruntime
    · rename_i hsatisfied
      simpa using hsatisfied

/-- **Runtimes.** The runtime of a node is the first live candidate by level and key, whatever the
order of the candidates and whatever is not live among them; when it does not meet the requirements
the resolution of the node is an error. -/
theorem runtime_selection (candidates : List RuntimeCandidate) :
    (∀ agentKey profileKey, Selects candidates agentKey profileKey) ∧
    ∀ modelValidate index root visited depth gathered w,
      gather modelValidate index root = .ok gathered →
      selectRuntime candidates (.agentDefinition, root.stableKey) gathered.profile.profileKey =
        .ok (some w) →
      checkCompatibility gathered.profile.requirements w.target.capabilities ≠ [] →
      ∃ e, ∀ fuel, maxCompositionDepth + 1 - depth < fuel →
        resolveNode modelValidate candidates index fuel root visited depth =
          .error (.failure e) := by
  refine ⟨selects candidates, ?_⟩
  intro modelValidate index root visited depth gathered w hgather hselect hunmet
  obtain ⟨outcome, houtcome⟩ :=
    @resolveNode_returns modelValidate candidates index root visited depth
  cases outcome with
  | error e => exact ⟨e, houtcome⟩
  | ok definition =>
    obtain ⟨gathered', winner, hgather', hwinner, hmet⟩ :=
      resolveNode_runtime (houtcome _ (Nat.lt_succ_self _))
    obtain rfl := Except.ok.inj (hgather.symm.trans hgather')
    obtain rfl := Except.ok.inj (hselect.symm.trans hwinner)
    exact absurd (hmet w rfl) hunmet

end Runtimes

/-! ## The rules of a node -/

section Rules

variable {skill : ResolutionNode} {bindings : List NodeBinding}

/-- The stages before the rules are merged go through. -/
structure Sorts (index : List ResolutionNode) (root : ResolutionNode) (direct : Direct)
    (expanded : List (ResolvedSkill × List (ResolutionNode × RulePath))) : Prop where
  bindings : root.bindings.foldlM (addBinding index root) {} = .ok direct
  oneProfile : direct.profileNodes.length ≤ 1
  skills : direct.skillNodes.mapM (expandSkill index root) = .ok expanded

theorem addBinding_kinds {direct sorted}
    (h : bindings.foldlM (addBinding index root) direct = .ok sorted)
    (hkinds : ∀ entry ∈ direct.directRules, entry.1.kind = .rule) :
    ∀ entry ∈ sorted.directRules, entry.1.kind = .rule := by
  induction bindings generalizing direct with
  | nil =>
    cases h
    exact hkinds
  | cons binding bindings ih =>
    rw [foldlM_cons] at h
    obtain ⟨next, hnext, h⟩ := bind_ok h
    refine ih h ?_
    obtain ⟨node, -, hadd⟩ := addBinding_ok hnext
    unfold Direct.add at hadd
    cases hrelation : binding.relation with
    | appliesRule =>
      rw [hrelation] at hadd
      dsimp only at hadd
      split at hadd
      · cases hadd
      · rename_i hkind
        cases hadd
        exact forall_mem_append.mpr ⟨hkinds, by simpa using hkind⟩
    | usesSkill | requiresModelProfile | composesAgent | referencesWorkflow | refinesSkillRule
    | usesHook =>
      rw [hrelation] at hadd
      cases hadd
      try exact hkinds

theorem skillRule_ok {skillPath binding entry}
    (h : skillRule index skill skillPath binding = .ok entry) :
    ∃ node, targetBy index .refinesSkillRule binding = some node ∧ node.kind = .rule ∧
      entry = (node, rulePath skill .refinesSkillRule) := by
  obtain ⟨node, hlookup, h⟩ := bind_ok h
  obtain ⟨relation, hchecked, h⟩ := bind_ok h
  obtain rfl := checkedRelation_ok hchecked
  split at h
  · cases h
  · rename_i hrule
    cases h
    obtain ⟨hrelation, hkind⟩ := not_or.mp hrule
    rw [not_not] at hrelation hkind
    exact ⟨node, (if_pos hrelation).trans (lookup_ok hlookup), hkind, by rw [hrelation]⟩

theorem mapM_skillRule_ok {skillPath entries}
    (h : bindings.mapM (skillRule index skill skillPath) = .ok entries) :
    entries = (targetsOf index bindings .refinesSkillRule).map
        (·, rulePath skill .refinesSkillRule) ∧
      ∀ entry ∈ entries, entry.1.kind = .rule := by
  induction bindings generalizing entries with
  | nil =>
    cases h
    exact ⟨rfl, by simp⟩
  | cons binding bindings ih =>
    rw [mapM_cons] at h
    obtain ⟨entry, hentry, h⟩ := bind_ok h
    obtain ⟨rest, hrest, h⟩ := bind_ok h
    cases h
    obtain ⟨node, htarget, hkind, rfl⟩ := skillRule_ok hentry
    obtain ⟨rfl, hkinds⟩ := ih hrest
    exact ⟨by simp [targetsOf, htarget], forall_mem_cons.mpr ⟨hkind, hkinds⟩⟩

theorem expandSkill_ok {skills : List ResolutionNode} {expanded}
    (h : skills.mapM (expandSkill index root) = .ok expanded) :
    expanded.flatMap Prod.snd = skills.flatMap (fun skill =>
        (targets index skill .refinesSkillRule).map (·, rulePath skill .refinesSkillRule)) ∧
      ∀ entry ∈ expanded.flatMap Prod.snd, entry.1.kind = .rule := by
  induction skills generalizing expanded with
  | nil =>
    cases h
    exact ⟨rfl, by simp⟩
  | cons skill skills ih =>
    rw [mapM_cons] at h
    obtain ⟨first, hfirst, h⟩ := bind_ok h
    obtain ⟨rest, hrest, h⟩ := bind_ok h
    cases h
    unfold expandSkill at hfirst
    split at hfirst
    · cases hfirst
    obtain ⟨entries, hentries, hfirst⟩ := bind_ok hfirst
    cases hfirst
    obtain ⟨rfl, hkinds⟩ := mapM_skillRule_ok hentries
    obtain ⟨heq, hrestKinds⟩ := ih hrest
    rw [flatMap_cons, flatMap_cons, heq]
    exact ⟨rfl, forall_mem_append.mpr ⟨hkinds, heq ▸ hrestKinds⟩⟩

theorem Sorts.entries {direct expanded} (h : Sorts index root direct expanded) :
    direct.directRules ++ expanded.flatMap Prod.snd = ruleEntries index root ∧
      ∀ entry ∈ ruleEntries index root, entry.1.kind = .rule := by
  have hkinds := addBinding_kinds h.bindings (by simp)
  obtain rfl := foldlM_addBinding_ok h.bindings
  obtain ⟨hskills, hskillKinds⟩ := expandSkill_ok h.skills
  have heq : (Direct.sorted index root {} root.bindings).directRules ++ expanded.flatMap Prod.snd =
      ruleEntries index root := by
    rw [hskills]
    simp [Direct.sorted, ruleEntries, skillsWithRules, targets, flatMap_map]
  exact ⟨heq, heq ▸ forall_mem_append.mpr ⟨hkinds, hskillKinds⟩⟩

theorem chosenProfile_error {profiles e} (h : chosenProfile modelValidate root profiles = .error e)
    (id) : e ≠ ruleConflict id := by
  cases profiles with
  | nil => cases h
  | cons profile profiles =>
    dsimp only [chosenProfile] at h
    split at h
    · cases h
      simp [ruleConflict, invalidInput]
    split at h
    · cases h
      simp [ruleConflict, invalidInput]
    split at h
    · cases h
      simp [ruleConflict, invalidInput]
    · cases h

theorem Sorts.gather {direct expanded} (h : Sorts index root direct expanded) :
    ∃ rest, StudioOS.Resolution.gather modelValidate index root =
        ((ruleEntries index root).foldlM addRule [] >>= rest) ∧
      ∀ rules id, rest rules ≠ .error (ruleConflict id) := by
  rw [← h.entries.1]
  unfold StudioOS.Resolution.gather
  rw [h.bindings]
  show ∃ rest, (if direct.profileNodes.length > 1 then _ else _) = _ ∧ _
  rw [if_neg (Nat.not_lt.mpr h.oneProfile), h.skills]
  refine ⟨_, rfl, fun rules id hfails => ?_⟩
  rcases bind_error hfails with hprofile | ⟨_, -, h⟩
  · exact chosenProfile_error hprofile id rfl
  · cases h

theorem gather_stages {gathered} (h : gather modelValidate index root = .ok gathered) :
    ∃ direct expanded, Sorts index root direct expanded ∧
      (direct.directRules ++ expanded.flatMap Prod.snd).foldlM addRule [] = .ok gathered.rules := by
  obtain ⟨direct, hdirect, h⟩ := bind_ok h
  split at h
  · cases h
  rename_i hone
  obtain ⟨expanded, hexpanded, h⟩ := bind_ok h
  obtain ⟨rules, hrules, h⟩ := bind_ok h
  obtain ⟨profile, -, h⟩ := bind_ok h
  cases h
  exact ⟨direct, expanded, ⟨hdirect, Nat.not_lt.mp hone, hexpanded⟩, hrules⟩

/-- **Rules.** A resolved node has one rule for each rule resource that it or its skills bind, with
the paths of all its bindings in their order. Once its bindings are sorted, the conflict error comes
exactly when a resource is pinned at two versions. -/
theorem rules_exact (modelValidate : JsonValue → Option CapabilityRequirement)
    (candidates : List RuntimeCandidate) (index : List ResolutionNode) (root : ResolutionNode) :
    (∀ fuel visited depth definition,
      resolveNode modelValidate candidates index fuel root visited depth = .ok definition →
        Merges (ruleEntries index root) definition.rules) ∧
    ∀ direct expanded, Sorts index root direct expanded →
      ((∃ id, gather modelValidate index root = .error (ruleConflict id)) ↔
        Conflicting (ruleEntries index root)) := by
  refine ⟨fun fuel visited depth definition h => ?_, fun direct expanded hsorts => ?_⟩
  · obtain ⟨gathered, composed, runtime, hgather, -, rfl⟩ := resolveNode_ok h
    obtain ⟨direct, expanded, hsorts, hrules⟩ := gather_stages hgather
    rw [hsorts.entries.1] at hrules
    rcases foldlM_addRule Merges.nil hsorts.entries.2 with ⟨merged, hmerged, hmerges⟩ | ⟨⟨_, h⟩, -⟩
    · obtain rfl := Except.ok.inj (hrules.symm.trans hmerged)
      exact hmerges
    · cases hrules.symm.trans h
  · obtain ⟨rest, hgather, hrest⟩ := @Sorts.gather modelValidate _ _ _ _ hsorts
    rw [hgather]
    rcases foldlM_addRule Merges.nil hsorts.entries.2 with ⟨merged, hmerged, hmerges⟩ | ⟨⟨id, h⟩, h'⟩
    · rw [hmerged]
      exact ⟨fun ⟨id, h⟩ => absurd h (hrest merged id), fun h => absurd h hmerges.not_conflicting⟩
    · rw [h]
      exact ⟨fun _ => h', fun _ => ⟨id, rfl⟩⟩

/-- Two versions of a rule, and two model profiles. -/
def maskedNode : ResolutionNode :=
  plainNode "lead" .agentDefinition [⟨.appliesRule, ⟨"style"⟩, 1⟩, ⟨.appliesRule, ⟨"style"⟩, 2⟩,
    ⟨.requiresModelProfile, ⟨"small"⟩, 1⟩, ⟨.requiresModelProfile, ⟨"large"⟩, 1⟩]

def maskedIndex : List ResolutionNode :=
  [plainNode "style" .rule [], { plainNode "style" .rule [] with version := 2 },
    plainNode "small" .modelProfile [], plainNode "large" .modelProfile []]

theorem rules_masked :
    Conflicting (ruleEntries maskedIndex maskedNode) ∧
      resolveNode validateEmpty [] maskedIndex 1 maskedNode [] 0 =
        .error (.failure (invalidInput "too_many_model_profiles" [("stable_key", .text "lead")])) :=
  ⟨⟨_, .head _, _, .tail _ (.head _), rfl, by decide⟩, rfl⟩

end Rules

/-! ## The definition of a key -/

section Definitions

variable {principal : Principal} {tables : Tables} {kind : LibraryKind} {stableKey : String}
  {projectId : Option Uuid} {seen : LibraryResource → Bool} {rows : List LibraryResource}

/-- Two rows that a unique index of `library_resources` keeps apart. -/
def Clash (a b : LibraryResource) : Prop :=
  a.kind = b.kind ∧ a.stableKey = b.stableKey ∧ a.scope = b.scope ∧
    match a.scope with
    | .studio => True
    | .project => ∃ id, a.projectId = some id ∧ b.projectId = some id
    | .user => ∃ id, a.ownerUserId = some id ∧ b.ownerUserId = some id

/-- A private definition of another user. -/
def isForeign (principal : Principal) (resource : LibraryResource) : Bool :=
  resource.scope = .user && resource.ownerUserId ≠ some (userId principal)

/-- `effective`. -/
def effective (principal : Principal) (tables : Tables) (kind : LibraryKind) (stableKey : String)
    (projectId : Option Uuid) : Option LibraryResource :=
  (visibleCandidates principal tables kind stableKey projectId).head?

def scopeRank (scope : LibraryScope) : Nat := [LibraryScope.user, .project, .studio].idxOf scope

/-- The resource of a key is the most specific that the caller may read, in whatever order the rows
come and whatever private definitions others have. -/
structure Shadows (principal : Principal) (tables : Tables) (kind : LibraryKind)
    (stableKey : String) (projectId : Option Uuid) : Prop where
  returned : ∀ locks resolution,
    resolveDefinition tables locks principal kind stableKey projectId = .ok resolution →
      (effective principal tables kind stableKey projectId).map (·.id) = some resolution.resourceId
  specific : ∀ other ∈ tables.resources, isCandidate kind stableKey projectId other = true →
    canRead principal other = true →
      ∃ resource, effective principal tables kind stableKey projectId = some resource ∧
        canRead principal resource = true ∧ scopeRank resource.scope ≤ scopeRank other.scope
  ordered : ∀ rows : List LibraryResource, rows.Perm tables.resources →
    effective principal { tables with resources := rows } kind stableKey projectId =
      effective principal tables kind stableKey projectId
  hidden : effective principal
      { tables with resources := tables.resources.filter (!isForeign principal ·) } kind stableKey
      projectId =
    effective principal tables kind stableKey projectId

/-- The rows that are seen, in the order of `_SCOPE_RANK`. -/
def ranked (seen : LibraryResource → Bool) (rows : List LibraryResource) : List LibraryResource :=
  [LibraryScope.user, .project, .studio].flatMap fun scope =>
    rows.filter fun r => r.scope = scope && seen r

theorem visible_ranked : visibleCandidates principal tables kind stableKey projectId =
    ranked (fun r => isCandidate kind stableKey projectId r && canRead principal r)
      tables.resources := by
  simp [visibleCandidates, ranked, Bool.and_assoc]

theorem mem_ranked {r} : r ∈ ranked seen rows ↔ r ∈ rows ∧ seen r = true := by
  cases hscope : r.scope <;> simp [ranked, hscope]

theorem ranked_sorted :
    (ranked seen rows).Pairwise fun a b => scopeRank a.scope ≤ scopeRank b.scope := by
  have hscopes : [LibraryScope.user, .project, .studio].Pairwise
    fun a b => scopeRank a ≤ scopeRank b := by decide
  refine pairwise_flatMap.mpr ⟨fun scope _ => ?_, hscopes.imp fun hle a ha b hb => ?_⟩
  · refine pairwise_of_forall_mem_list fun a ha b hb => ?_
    simp only [mem_filter, Bool.and_eq_true, decide_eq_true_iff] at ha hb
    rw [ha.2.1, hb.2.1]
  · simp only [mem_filter, Bool.and_eq_true, decide_eq_true_iff] at ha hb
    rwa [ha.2.1, hb.2.1]

theorem ranked_filter {keep} (h : ∀ r ∈ rows, seen r = true → keep r = true) :
    ranked seen (rows.filter keep) = ranked seen rows := by
  refine flatMap_congr fun scope _ => ?_
  rw [filter_filter]
  refine filter_congr fun r hr => ?_
  cases hseen : seen r with
  | false => simp
  | true => simp [h r hr hseen]

/-- Where the rows of one scope that are seen would clash, there is at most one. -/
theorem ranked_perm {rows'} (hindexed : rows.Pairwise (¬ Clash · ·))
    (hclash : ∀ a ∈ ranked seen rows, ∀ b ∈ ranked seen rows, a.scope = b.scope → Clash a b)
    (hperm : rows'.Perm rows) : ranked seen rows' = ranked seen rows := by
  refine flatMap_congr fun scope hscope => ?_
  have hfilter := hperm.filter fun r => r.scope = scope && seen r
  have hpairwise := hindexed.filter fun r => r.scope = scope && seen r
  have hmem := fun r (hr : r ∈ rows.filter fun r => r.scope = scope && seen r) =>
    And.intro (mem_flatMap.mpr ⟨scope, hscope, hr⟩ : r ∈ ranked seen rows)
      (Bool.and_eq_true_iff.mp (mem_filter.mp hr).2).1
  match hrows : rows.filter fun r => r.scope = scope && seen r with
  | [] => exact (perm_nil.mp (hrows ▸ hfilter)).trans hrows.symm
  | [r] => exact (perm_singleton.mp (hrows ▸ hfilter)).trans hrows.symm
  | a :: b :: _ =>
    rw [hrows] at hmem hpairwise
    obtain ⟨ha, hscope⟩ := hmem a (.head _)
    obtain ⟨hb, hscope'⟩ := hmem b (.tail _ (.head _))
    exact absurd
      (hclash a ha b hb ((of_decide_eq_true hscope).trans (of_decide_eq_true hscope').symm))
      ((pairwise_cons.mp hpairwise).1 b (.head _))

theorem effective_specific {other} (hother : other ∈ tables.resources)
    (hcandidate : isCandidate kind stableKey projectId other = true)
    (hread : canRead principal other = true) :
    ∃ resource, effective principal tables kind stableKey projectId = some resource ∧
      canRead principal resource = true ∧ scopeRank resource.scope ≤ scopeRank other.scope := by
  have hmem : other ∈ visibleCandidates principal tables kind stableKey projectId := by
    rw [visible_ranked]
    exact mem_ranked.mpr ⟨hother, Bool.and_eq_true_iff.mpr ⟨hcandidate, hread⟩⟩
  rw [visible_ranked] at hmem
  rw [effective, visible_ranked]
  match hranked : ranked _ tables.resources with
  | [] =>
    rw [hranked] at hmem
    cases hmem
  | resource :: rest =>
    have hsorted := hranked ▸ ranked_sorted
    have hhead := (mem_ranked.mp (hranked ▸ mem_cons_self)).2
    rw [hranked] at hmem
    refine ⟨resource, rfl, (Bool.and_eq_true_iff.mp hhead).2, ?_⟩
    rcases mem_cons.mp hmem with rfl | hrest
    · exact le_rfl
    · exact (pairwise_cons.mp hsorted).1 _ hrest

/-- Candidates of one scope clash, when the private ones are the caller's. -/
theorem clash_of_candidates {a b} (ha : isCandidate kind stableKey projectId a = true)
    (hb : isCandidate kind stableKey projectId b = true) (hscope : a.scope = b.scope)
    (hown : isForeign principal a = false) (hown' : isForeign principal b = false) :
    Clash a b := by
  simp only [isCandidate, isForeign, Bool.and_eq_true, decide_eq_true_iff] at ha hb hown hown'
  refine ⟨ha.1.1.trans hb.1.1.symm, ha.1.2.trans hb.1.2.symm, hscope, ?_⟩
  rw [← hscope] at hb hown'
  cases hkind : a.scope with
  | studio => trivial
  | project =>
    rw [hkind] at ha hb
    cases projectId with
    | none => simp at ha
    | some id => exact ⟨id, by simpa using ha.2, by simpa using hb.2⟩
  | user =>
    rw [hkind] at hown hown'
    exact ⟨_, by simpa using hown, by simpa using hown'⟩

theorem effective_id {locks resolution}
    (h : resolveDefinition tables locks principal kind stableKey projectId = .ok resolution) :
    (effective principal tables kind stableKey projectId).map (·.id) =
      some resolution.resourceId := by
  have hinner : resolveInner tables locks principal kind stableKey projectId = .ok resolution := by
    cases projectId with
    | none => exact h
    | some id => exact (bind_ok h).choose_spec.2
  unfold resolveInner at hinner
  unfold effective
  split at hinner
  · cases hinner
  rename_i hvisible
  rw [hvisible]
  dsimp only at hinner
  split at hinner
  · cases hinner
  split at hinner
  · cases hinner
  split at hinner
  · cases hinner
    rfl
  · cases hinner

/-- **Shadowing.** -/
theorem shadows_iff (hindexed : tables.resources.Pairwise (¬ Clash · ·)) :
    Shadows principal tables kind stableKey projectId ↔
      principal.role ≠ .admin ∨ ∀ resource ∈ tables.resources,
        isCandidate kind stableKey projectId resource = true →
          isForeign principal resource = false := by
  constructor
  · intro h
    refine or_iff_not_imp_left.mpr fun hadmin resource hresource hcandidate => ?_
    rw [not_not] at hadmin
    by_contra hforeign
    rw [Bool.not_eq_false] at hforeign
    have hscope := of_decide_eq_true (Bool.and_eq_true_iff.mp hforeign).1
    -- with this row first, it is the one that is taken
    have hperm := (perm_cons_erase hresource).symm
    have hfirst : effective principal
        { tables with resources := resource :: tables.resources.erase resource } kind stableKey
        projectId = some resource := by
      simp [effective, visibleCandidates, canRead, hcandidate, hadmin, hscope]
    have hhidden := h.hidden.trans ((h.ordered _ hperm).symm.trans hfirst)
    rw [effective, visible_ranked] at hhidden
    have hmem := (mem_ranked.mp (mem_of_head? hhidden)).1
    simp [hforeign] at hmem
  · intro h
    have hown : ∀ r ∈ tables.resources, (isCandidate kind stableKey projectId r &&
        canRead principal r) = true → isForeign principal r = false := by
      intro r hr hseen
      obtain ⟨hcandidate, hread⟩ := Bool.and_eq_true_iff.mp hseen
      refine h.elim (fun hrole => ?_) fun hnone => hnone r hr hcandidate
      by_cases hscope : r.scope = .user
      · simpa [canRead, isForeign, hscope, hrole] using hread
      · simp [isForeign, hscope]
    refine ⟨fun _ _ => effective_id, fun _ => effective_specific, fun rows hperm => ?_, ?_⟩
    · rw [effective, visible_ranked, effective, visible_ranked]
      refine congrArg head? (ranked_perm hindexed (fun a ha b hb hscope => ?_) hperm)
      obtain ⟨ha, hseen⟩ := mem_ranked.mp ha
      obtain ⟨hb, hseen'⟩ := mem_ranked.mp hb
      exact clash_of_candidates (Bool.and_eq_true_iff.mp hseen).1 (Bool.and_eq_true_iff.mp hseen').1
        hscope (hown a ha hseen) (hown b hb hseen')
    · rw [effective, visible_ranked, effective, visible_ranked]
      exact congrArg head? (ranked_filter fun r hr hseen => by rw [hown r hr hseen]; rfl)

/-- A private definition of another user, and an admin. -/
def foreignTables : Tables :=
  { resources := [⟨⟨"theirs"⟩, .rule, "style", .user, .active, 1, some ⟨"other"⟩, none, 1⟩]
    versions := []
    links := [] }

def adminPrincipal : Principal :=
  { machine := ⟨⟨"m"⟩, ⟨"u"⟩⟩, role := .admin, projectScope := .allProjects }

theorem shadowing_foreign :
    (effective adminPrincipal foreignTables .rule "style" none).isSome = true ∧
      effective adminPrincipal { foreignTables with resources := [] } .rule "style" none = none ∧
      foreignTables.resources.filter (!isForeign adminPrincipal ·) = [] := by
  decide +kernel

theorem shadows_iff_sample : ¬ Shadows adminPrincipal foreignTables .rule "style" none := by
  rw [shadows_iff (pairwise_singleton _ _)]
  decide +kernel

end Definitions

end StudioOS.Resolution
