import StudioOS.Resolution.Contract

/-!
# Resolution — Core

`resolve_agent` of `studio_contracts.resolution`: from a loaded snapshot to a
`ResolvedAgentDefinition` or a `ResolutionError`.
-/

namespace StudioOS.Resolution

/-! ## Errors and results -/

inductive ResolutionErrorCode where
  | definitionNotFound
  | unresolvableDependency
  | runtimeIncompatible
  | invalidResolutionInput
  | compositionCycleDetected
  | compositionDepthExceeded

def maxCompositionDepth : Nat := 8

/-- A value of `ResolutionError.details`. -/
inductive Detail where
  | text (s : String)
  | number (n : Int)
  | reasons (unsatisfied : List Unsatisfied)

structure ResolutionError where
  errorCode : ResolutionErrorCode
  details : List (String × Detail)

/-- How a call that does not return a value ends: with the error it
raised, or still running when the fuel is spent. -/
inductive Halt where
  | failure (error : ResolutionError)
  | running

/-- `_fail(INVALID_RESOLUTION_INPUT, reason=...)`. -/
def invalidInput (reason : String) (details : List (String × Detail)) : ResolutionError :=
  { errorCode := .invalidResolutionInput, details := ("reason", .text reason) :: details }

inductive ProvenanceSource where
  | activePointer
  | projectLock
  | versionPin
  | runtimeBinding
  | sessionOverride

structure Provenance where
  source : ProvenanceSource
  resourceId : Option Uuid := none
  stableKey : Option String := none
  scope : Option LibraryScope := none
  version : Option Int := none
  versionOrigin : Option VersionOrigin := none
  locked : Bool := false
  relation : Option BindingRelation := none
  bindingLevel : Option RuntimeLevel := none
  via : Option String := none

structure ResolvedAgent where
  resourceId : Uuid
  kind : LibraryKind
  stableKey : String
  scope : LibraryScope
  version : Int
  versionOrigin : VersionOrigin
  deprecated : Bool
  title : String
  content : Content
  provenance : Provenance

structure RulePath where
  relation : BindingRelation
  viaKind : LibraryKind
  viaResourceId : Uuid
  viaStableKey : String
  viaVersion : Int

structure ResolvedRule where
  resourceId : Uuid
  stableKey : String
  scope : LibraryScope
  version : Int
  versionOrigin : VersionOrigin
  deprecated : Bool
  title : String
  content : Content
  paths : List RulePath

structure ResolvedSkill where
  resourceId : Uuid
  stableKey : String
  scope : LibraryScope
  version : Int
  versionOrigin : VersionOrigin
  deprecated : Bool
  title : String
  content : Content
  provenance : Provenance

structure ResolvedModelProfile where
  resourceId : Uuid
  stableKey : String
  scope : LibraryScope
  version : Int
  versionOrigin : VersionOrigin
  deprecated : Bool
  title : String
  requirements : CapabilityRequirement
  provenance : Provenance

structure PreservedReference where
  resourceId : Uuid
  kind : LibraryKind
  stableKey : String
  scope : LibraryScope
  version : Int
  versionOrigin : VersionOrigin
  deprecated : Bool
  relation : BindingRelation
  provenance : Provenance

structure ResolvedRuntime where
  target : RuntimeTarget
  level : RuntimeLevel
  matchedKind : LibraryKind
  matchedStableKey : String
  compatible : Bool
  unsatisfied : List Unsatisfied
  provenance : Option Provenance

/-- `ResolvedAgentDefinition`; an element of `composedAgents` is a
`ResolvedComposedAgent`, its reference and its own definition. -/
structure ResolvedAgentDefinition where
  agent : ResolvedAgent
  rules : List ResolvedRule
  skills : List ResolvedSkill
  modelProfile : Option ResolvedModelProfile
  requirements : CapabilityRequirement
  composedAgents : List (PreservedReference × ResolvedAgentDefinition)
  workflows : List PreservedReference
  runtime : Option ResolvedRuntime

/-- The live candidates for one level and one key. -/
def liveMatches (candidates : List RuntimeCandidate)
    (choice : RuntimeLevel × LibraryKind × String) : List RuntimeCandidate :=
  candidates.filter fun c =>
    c.live && c.level = choice.1 && c.kind = choice.2.1 && c.stableKey = choice.2.2

/-- The loops of `select_runtime`, over the levels and keys they try. -/
def selectFrom (candidates : List RuntimeCandidate) :
    List (RuntimeLevel × LibraryKind × String) → Except ResolutionError (Option RuntimeCandidate)
  | [] => .ok none
  | choice :: choices =>
    match liveMatches candidates choice with
    | [] => selectFrom candidates choices
    | [found] => .ok (some found)
    | _ :: _ :: _ => .error (invalidInput "duplicate_runtime_candidate"
        [("level", .text choice.1.value), ("stable_key", .text choice.2.2)])

def selectRuntime (candidates : List RuntimeCandidate) (agentKey : LibraryKind × String)
    (profileKey : Option (LibraryKind × String)) :
    Except ResolutionError (Option RuntimeCandidate) :=
  selectFrom candidates
    (levelOrder.flatMap fun level => (agentKey :: profileKey.toList).map (level, ·))

/-- `index.get((resource_id, version))`. -/
def nodeAt (index : List ResolutionNode) (resourceId : Uuid) (version : Int) :
    Option ResolutionNode :=
  index.find? fun node => node.resourceId = resourceId ∧ node.version = version

/-- One turn of the loop that builds `index`. A node that is already
there is written over its equal. -/
def addNode (index : List ResolutionNode) (node : ResolutionNode) :
    Except ResolutionError (List ResolutionNode) :=
  match nodeAt index node.resourceId node.version with
  | none => .ok (index ++ [node])
  | some existing =>
    if existing ≠ node then
      .error (invalidInput "conflicting_snapshot_node"
        [("resource_id", .text node.resourceId.str), ("version", .number node.version)])
    else .ok index

/-! ## One node -/

def nodeProvenance (node : ResolutionNode) (source : ProvenanceSource)
    (relation : Option BindingRelation) (via : Option String) : Provenance :=
  { source := source
    resourceId := some node.resourceId
    stableKey := some node.stableKey
    scope := some node.scope
    version := some node.version
    versionOrigin := some node.versionOrigin
    locked := node.versionOrigin = .lock
    relation := relation
    via := via }

def pinSource : VersionOrigin → ProvenanceSource
  | .lock => .projectLock
  | .active => .activePointer
  | .pin => .versionPin

/-- The path texts `f"{kind.value}:{stable_key}"`. -/
def pathOf (kind : LibraryKind) (stableKey : String) : String := kind.value ++ ":" ++ stableKey

/-- `root_path`. -/
def ResolutionNode.path (node : ResolutionNode) : String := pathOf node.kind node.stableKey

/-- The checks `_resolve_node` starts with. -/
def guardNode (root : ResolutionNode) (visited : List Uuid) (depth : Nat) :
    Except ResolutionError Unit :=
  if root.kind ≠ .agentDefinition then
    .error (invalidInput "root_not_agent_definition" [("kind", .text root.kind.value)])
  else if root.resourceId ∈ visited then
    .error { errorCode := .compositionCycleDetected
             details := [("resource_id", .text root.resourceId.str),
               ("stable_key", .text root.stableKey)] }
  else if depth > maxCompositionDepth then
    .error { errorCode := .compositionDepthExceeded
             details := [("resource_id", .text root.resourceId.str),
               ("stable_key", .text root.stableKey),
               ("max_depth", .number maxCompositionDepth)] }
  else .ok ()

def lookup (index : List ResolutionNode) (binding : NodeBinding) (via : String) :
    Except ResolutionError ResolutionNode :=
  match nodeAt index binding.targetResourceId binding.targetVersion with
  | some node => .ok node
  | none => .error
      { errorCode := .unresolvableDependency
        details := [("reason", .text "missing_snapshot_node"), ("via", .text via),
          ("resource_id", .text binding.targetResourceId.str),
          ("version", .number binding.targetVersion)] }

def checkedRelation (sourceKind : LibraryKind) (binding : NodeBinding) (node : ResolutionNode)
    (via : String) : Except ResolutionError BindingRelation :=
  match bindingRelationFor sourceKind node.kind with
  | some expected =>
    if expected ≠ binding.relation then
      .error (invalidInput "forbidden_kind_pair_or_relation_mismatch" [("via", .text via)])
    else .ok expected
  | none =>
    .error (invalidInput "forbidden_kind_pair_or_relation_mismatch" [("via", .text via)])

/-- The `RulePath` of a rule that `source` binds by `relation`. -/
def rulePath (source : ResolutionNode) (relation : BindingRelation) : RulePath :=
  { relation := relation
    viaKind := source.kind
    viaResourceId := source.resourceId
    viaStableKey := source.stableKey
    viaVersion := source.version }

/-- The lists the root's bindings are sorted into. -/
structure Direct where
  directRules : List (ResolutionNode × RulePath) := []
  skillNodes : List ResolutionNode := []
  profileNodes : List ResolutionNode := []
  composedNodes : List ResolutionNode := []
  workflowNodes : List ResolutionNode := []

/-- Where a target goes, by its relation. -/
def Direct.add (root : ResolutionNode) (direct : Direct) (node : ResolutionNode) :
    BindingRelation → Except ResolutionError Direct
  | .appliesRule =>
    if node.kind ≠ .rule then
      .error (invalidInput "rule_target_not_rule" [("via", .text root.path)])
    else .ok { direct with
      directRules := direct.directRules ++ [(node, rulePath root .appliesRule)] }
  | .usesSkill => .ok { direct with skillNodes := direct.skillNodes ++ [node] }
  | .requiresModelProfile => .ok { direct with profileNodes := direct.profileNodes ++ [node] }
  | .composesAgent => .ok { direct with composedNodes := direct.composedNodes ++ [node] }
  | .referencesWorkflow => .ok { direct with workflowNodes := direct.workflowNodes ++ [node] }
  | .refinesSkillRule | .usesHook =>
    .error (invalidInput "unexpected_agent_relation" [("via", .text root.path)])

/-- One turn of the loop over `root.bindings`. -/
def addBinding (index : List ResolutionNode) (root : ResolutionNode) (direct : Direct)
    (binding : NodeBinding) : Except ResolutionError Direct := do
  let node ← lookup index binding root.path
  let relation ← checkedRelation root.kind binding node root.path
  direct.add root node relation

/-- The rule one binding of a skill names. -/
def skillRule (index : List ResolutionNode) (skill : ResolutionNode) (skillPath : String)
    (binding : NodeBinding) : Except ResolutionError (ResolutionNode × RulePath) := do
  let rule ← lookup index binding skillPath
  let relation ← checkedRelation skill.kind binding rule skillPath
  if relation ≠ .refinesSkillRule ∨ rule.kind ≠ .rule then
    .error (invalidInput "skill_binding_not_rule" [("via", .text skillPath)])
  else .ok (rule, rulePath skill relation)

def resolvedSkill (root skill : ResolutionNode) : ResolvedSkill :=
  { resourceId := skill.resourceId
    stableKey := skill.stableKey
    scope := skill.scope
    version := skill.version
    versionOrigin := skill.versionOrigin
    deprecated := skill.deprecated
    title := skill.title
    content := skill.content
    provenance := nodeProvenance skill (pinSource skill.versionOrigin) (some .usesSkill)
      (some root.path) }

/-- One turn of the loop over `skill_nodes`. -/
def expandSkill (index : List ResolutionNode) (root skill : ResolutionNode) :
    Except ResolutionError (ResolvedSkill × List (ResolutionNode × RulePath)) :=
  if skill.kind ≠ .skill then
    .error (invalidInput "skill_target_not_skill" [("via", .text root.path)])
  else do
    let rules ← skill.bindings.mapM (skillRule index skill (root.path ++ ">" ++ skill.path))
    .ok (resolvedSkill root skill, rules)

def resolvedRule (node : ResolutionNode) (path : RulePath) : ResolvedRule :=
  { resourceId := node.resourceId
    stableKey := node.stableKey
    scope := node.scope
    version := node.version
    versionOrigin := node.versionOrigin
    deprecated := node.deprecated
    title := node.title
    content := node.content
    paths := [path] }

/-- `existing_rule.paths.append(path)`, for the rule with this id. -/
def appendPath (rules : List ResolvedRule) (resourceId : Uuid) (path : RulePath) :
    List ResolvedRule :=
  rules.map fun rule =>
    if rule.resourceId = resourceId then { rule with paths := rule.paths ++ [path] } else rule

/-- One turn of the loop that merges the rules. -/
def addRule (rules : List ResolvedRule) (entry : ResolutionNode × RulePath) :
    Except ResolutionError (List ResolvedRule) :=
  if entry.1.kind ≠ .rule then
    .error (invalidInput "rule_target_not_rule"
      [("via", .text (pathOf entry.2.viaKind entry.2.viaStableKey))])
  else
    match rules.find? (·.resourceId = entry.1.resourceId) with
    | none => .ok (rules ++ [resolvedRule entry.1 entry.2])
    | some existing =>
      if existing.version ≠ entry.1.version then
        .error (invalidInput "rule_pinned_at_two_versions"
          [("resource_id", .text entry.1.resourceId.str)])
      else .ok (appendPath rules entry.1.resourceId entry.2)

/-- `requirements`, `model_profile` and `profile_key`. -/
structure ChosenProfile where
  requirements : CapabilityRequirement := {}
  modelProfile : Option ResolvedModelProfile := none
  profileKey : Option (LibraryKind × String) := none

/-- `profile.content.get("requirements", {})`. -/
def rawRequirements (profile : ResolutionNode) : JsonValue :=
  ((profile.content.find? (·.1 = "requirements")).map Prod.snd).getD ⟨true, "\x7b\x7d"⟩

def resolvedProfile (root profile : ResolutionNode) (requirements : CapabilityRequirement) :
    ResolvedModelProfile :=
  { resourceId := profile.resourceId
    stableKey := profile.stableKey
    scope := profile.scope
    version := profile.version
    versionOrigin := profile.versionOrigin
    deprecated := profile.deprecated
    title := profile.title
    requirements := requirements
    provenance := nodeProvenance profile (pinSource profile.versionOrigin)
      (some .requiresModelProfile) (some root.path) }

/-- The block `if profile_nodes:`. -/
def chosenProfile (modelValidate : JsonValue → Option CapabilityRequirement)
    (root : ResolutionNode) : List ResolutionNode → Except ResolutionError ChosenProfile
  | [] => .ok {}
  | profile :: _ =>
    if profile.kind ≠ .modelProfile then
      .error (invalidInput "profile_target_not_model_profile" [("via", .text root.path)])
    else if (rawRequirements profile).isObject = false then
      .error (invalidInput "profile_requirements_not_object" [("via", .text root.path)])
    else
      match modelValidate (rawRequirements profile) with
      | none => .error (invalidInput "profile_requirements_invalid" [("via", .text root.path)])
      | some requirements => .ok
          { requirements := requirements
            modelProfile := some (resolvedProfile root profile requirements)
            profileKey := some (profile.kind, profile.stableKey) }

def preserved (root node : ResolutionNode) (relation : BindingRelation) : PreservedReference :=
  { resourceId := node.resourceId
    kind := node.kind
    stableKey := node.stableKey
    scope := node.scope
    version := node.version
    versionOrigin := node.versionOrigin
    deprecated := node.deprecated
    relation := relation
    provenance := nodeProvenance node (pinSource node.versionOrigin) (some relation)
      (some root.path) }

/-- What a node's own bindings give, before the composed agents are
resolved. -/
structure Gathered where
  rules : List ResolvedRule
  skills : List ResolvedSkill
  profile : ChosenProfile
  composedNodes : List ResolutionNode
  workflows : List PreservedReference

def gather (modelValidate : JsonValue → Option CapabilityRequirement)
    (index : List ResolutionNode) (root : ResolutionNode) : Except ResolutionError Gathered := do
  let direct ← root.bindings.foldlM (addBinding index root) {}
  if direct.profileNodes.length > 1 then
    .error (invalidInput "too_many_model_profiles" [("stable_key", .text root.stableKey)])
  else do
    let expanded ← direct.skillNodes.mapM (expandSkill index root)
    let rules ← (direct.directRules ++ expanded.flatMap Prod.snd).foldlM addRule []
    let profile ← chosenProfile modelValidate root direct.profileNodes
    .ok
      { rules := rules
        skills := expanded.map Prod.fst
        profile := profile
        composedNodes := direct.composedNodes
        workflows := direct.workflowNodes.map (preserved root · .referencesWorkflow) }

/-- The block from `select_runtime` to `runtime`. -/
def resolvedRuntime (candidates : List RuntimeCandidate) (root : ResolutionNode)
    (profile : ChosenProfile) : Except ResolutionError (Option ResolvedRuntime) := do
  match ← selectRuntime candidates (.agentDefinition, root.stableKey) profile.profileKey with
  | none => .ok none
  | some winner =>
    let unsatisfied := checkCompatibility profile.requirements winner.target.capabilities
    if unsatisfied ≠ [] then
      .error
        { errorCode := .runtimeIncompatible
          details := [("level", .text winner.level.value),
            ("matched_kind", .text winner.kind.value),
            ("matched_stable_key", .text winner.stableKey),
            ("unsatisfied", .reasons unsatisfied)] }
    else .ok (some
      { target := winner.target
        level := winner.level
        matchedKind := winner.kind
        matchedStableKey := winner.stableKey
        compatible := true
        unsatisfied := []
        provenance := some
          { source := if winner.level = .session then .sessionOverride else .runtimeBinding
            bindingLevel := some winner.level
            via := some (pathOf winner.kind winner.stableKey) } })

def resolvedAgent (root : ResolutionNode) : ResolvedAgent :=
  { resourceId := root.resourceId
    kind := root.kind
    stableKey := root.stableKey
    scope := root.scope
    version := root.version
    versionOrigin := root.versionOrigin
    deprecated := root.deprecated
    title := root.title
    content := root.content
    provenance := nodeProvenance root (pinSource root.versionOrigin) none none }

/-- A step of one call, as a step of the whole run. -/
def raised {α : Type} (result : Except ResolutionError α) : Except Halt α :=
  result.mapError Halt.failure

def resolveNode (modelValidate : JsonValue → Option CapabilityRequirement)
    (candidates : List RuntimeCandidate) (index : List ResolutionNode) :
    Nat → ResolutionNode → List Uuid → Nat → Except Halt ResolvedAgentDefinition
  | 0, _, _, _ => .error .running
  | fuel + 1, root, visited, depth => do
    raised (guardNode root visited depth)
    let gathered ← raised (gather modelValidate index root)
    let composedAgents ← gathered.composedNodes.mapM fun node => do
      let resolved ← resolveNode modelValidate candidates index fuel node
        (root.resourceId :: visited) (depth + 1)
      return (preserved root node .composesAgent, resolved)
    let runtime ← raised (resolvedRuntime candidates root gathered.profile)
    return {
      agent := resolvedAgent root
      rules := gathered.rules
      skills := gathered.skills
      modelProfile := gathered.profile.modelProfile
      requirements := gathered.profile.requirements
      composedAgents := composedAgents
      workflows := gathered.workflows
      runtime := runtime }

def resolveAgent (modelValidate : JsonValue → Option CapabilityRequirement) (fuel : Nat)
    (snapshot : AgentResolutionSnapshot) : Except Halt ResolvedAgentDefinition := do
  let index ← raised ((snapshot.agent :: snapshot.nodes).foldlM addNode [])
  resolveNode modelValidate snapshot.runtimeCandidates index fuel snapshot.agent [] 0

end StudioOS.Resolution
