import StudioOS.Authz

/-!
# Resolution — Contract

The vocabulary of `studio_contracts.library` and `studio_contracts.runtime`
that the resolution reads: kinds, scopes, the binding matrix, capabilities and
their compatibility, and the snapshot types of `studio_contracts.resolution`.
-/

namespace StudioOS.Resolution

inductive LibraryKind where
  | rule
  | skill
  | agentDefinition
  | modelProfile
  | workflow
  | hook
deriving DecidableEq

def LibraryKind.value : LibraryKind → String
  | .rule => "rule"
  | .skill => "skill"
  | .agentDefinition => "agent_definition"
  | .modelProfile => "model_profile"
  | .workflow => "workflow"
  | .hook => "hook"

inductive LibraryScope where
  | studio
  | project
  | user
deriving DecidableEq

inductive BindingRelation where
  | requiresModelProfile
  | usesSkill
  | appliesRule
  | composesAgent
  | referencesWorkflow
  | refinesSkillRule
  | usesHook
deriving DecidableEq

/-- `binding_relation_for`, with `_BINDING_MATRIX` as its cases. -/
def bindingRelationFor : LibraryKind → LibraryKind → Option BindingRelation
  | .agentDefinition, .rule => some .appliesRule
  | .agentDefinition, .skill => some .usesSkill
  | .agentDefinition, .modelProfile => some .requiresModelProfile
  | .agentDefinition, .agentDefinition => some .composesAgent
  | .agentDefinition, .workflow => some .referencesWorkflow
  | .skill, .rule => some .refinesSkillRule
  | .workflow, .rule => some .appliesRule
  | .workflow, .skill => some .usesSkill
  | .workflow, .agentDefinition => some .composesAgent
  | .agentDefinition, .hook => some .usesHook
  | .workflow, .hook => some .usesHook
  | _, _ => none

theorem bindingRelationFor_agent_inj {k k' r} (h : bindingRelationFor .agentDefinition k = some r)
    (h' : bindingRelationFor .agentDefinition k' = some r) : k = k' := by
  cases k <;> cases h <;> cases k' <;> first | rfl | cases h'

inductive VersionOrigin where
  | lock
  | active
  | pin
deriving DecidableEq

/-- `CapabilityRequirement`, with its defaults. -/
structure CapabilityRequirement where
  reasoning : Option String := none
  coding : Bool := false
  contextWindowMin : Option Int := none
  toolsRequired : List String := []
  multimodal : Option String := none
  localCompatible : Bool := false
  cost : Option String := none
  latency : Option String := none

/-- `RuntimeCapabilities`, with its defaults. -/
structure RuntimeCapabilities where
  reasoning : Option String := none
  coding : Bool := false
  contextWindow : Option Int := none
  tools : List String := []
  multimodal : Option String := none
  isLocal : Bool := false
  cost : Option String := none
  latency : Option String := none

/-- A reason of `check_compatibility`: each constructor is one of its
texts, with the value the text quotes. -/
inductive Unsatisfied where
  | reasoning (required : String)
  | coding
  | contextWindowMin (required : Int)
  | toolsRequired (missing : List String)
  | multimodal (required : String)
  | localCompatible
  | cost (required : String)
  | latency (required : String)

/-- The check of one open-string dimension: an absent requirement is
satisfied, any other one only by the same text. -/
def unmatched (required offered : Option String) (reason : String → Unsatisfied) :
    List Unsatisfied :=
  match required with
  | none => []
  | some text => if offered = some text then [] else [reason text]

/-- The check of `context_window_min`. -/
def windowTooSmall (required offered : Option Int) : List Unsatisfied :=
  match required, offered with
  | none, _ => []
  | some least, none => [.contextWindowMin least]
  | some least, some window => if window < least then [.contextWindowMin least] else []

def checkCompatibility (requirement : CapabilityRequirement)
    (capabilities : RuntimeCapabilities) : List Unsatisfied :=
  let missingTools := requirement.toolsRequired.filter (· ∉ capabilities.tools)
  unmatched requirement.reasoning capabilities.reasoning .reasoning ++
    (if requirement.coding && !capabilities.coding then [.coding] else []) ++
    windowTooSmall requirement.contextWindowMin capabilities.contextWindow ++
    (if missingTools ≠ [] then [.toolsRequired missingTools] else []) ++
    unmatched requirement.multimodal capabilities.multimodal .multimodal ++
    (if requirement.localCompatible && !capabilities.isLocal then [.localCompatible] else []) ++
    unmatched requirement.cost capabilities.cost .cost ++
    unmatched requirement.latency capabilities.latency .latency

inductive RuntimeLevel where
  | session
  | projectOverride
  | user
  | projectDefault
  | studioDefault
deriving DecidableEq

def RuntimeLevel.value : RuntimeLevel → String
  | .session => "session"
  | .projectOverride => "project_override"
  | .user => "user"
  | .projectDefault => "project_default"
  | .studioDefault => "studio_default"

def levelOrder : List RuntimeLevel :=
  [.session, .projectOverride, .user, .projectDefault, .studioDefault]

structure RuntimeTarget where
  runtimeId : Option Uuid := none
  machineId : Option Uuid := none
  harnessRef : Option String := none
  providerRef : Option String := none
  modelRef : Option String := none
  capabilities : RuntimeCapabilities := {}

structure RuntimeCandidate where
  level : RuntimeLevel
  kind : LibraryKind
  stableKey : String
  target : RuntimeTarget
  live : Bool := true

/-- A JSON value of a version's `content`: its canonical text, and
whether it is an object, which is all the resolution asks of it. -/
structure JsonValue where
  isObject : Bool
  text : String
deriving DecidableEq

/-- A `content` dict, its members in one fixed order: two contents are
equal when the dicts are. -/
abbrev Content := List (String × JsonValue)

structure NodeBinding where
  relation : BindingRelation
  targetResourceId : Uuid
  targetVersion : Int
deriving DecidableEq

structure ResolutionNode where
  resourceId : Uuid
  kind : LibraryKind
  stableKey : String
  scope : LibraryScope
  version : Int
  versionOrigin : VersionOrigin
  deprecated : Bool := false
  title : String := ""
  content : Content := []
  bindings : List NodeBinding := []
deriving DecidableEq

structure AgentResolutionSnapshot where
  agent : ResolutionNode
  nodes : List ResolutionNode := []
  runtimeCandidates : List RuntimeCandidate := []

end StudioOS.Resolution
