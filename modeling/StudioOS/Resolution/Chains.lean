import StudioOS.Library.Expansion
import StudioOS.Resolution.Returns

/-!
# Resolution — Chains

Which composition graphs `resolve_agent` accepts. On a well-formed
snapshot the outcome is read off the chains of `composes_agent`
bindings: the recursion is the walk of `Library/Expansion`, where an
agent that binds a hook is a bad node (`resolveNode_spec`).
-/

namespace StudioOS.Resolution

open List Expansion

variable {modelValidate : JsonValue → Option CapabilityRequirement}
  {candidates : List RuntimeCandidate} {index : List ResolutionNode}
  {snapshot : AgentResolutionSnapshot}

variable {node root : ResolutionNode} {visited : List Uuid}

def AgentResolutionSnapshot.all (snapshot : AgentResolutionSnapshot) : List ResolutionNode :=
  snapshot.agent :: snapshot.nodes

def composed (index : List ResolutionNode) (node : ResolutionNode) : List ResolutionNode :=
  targets index node .composesAgent

/-- A snapshot with nothing wrong in it but its hooks and its chains. -/
structure WellFormed (modelValidate : JsonValue → Option CapabilityRequirement)
    (snapshot : AgentResolutionSnapshot) : Prop where
  root : snapshot.agent.kind = .agentDefinition
  consistent : ∀ node ∈ snapshot.all, ∀ node' ∈ snapshot.all, node.pin = node'.pin → node = node'
  nodes : ∀ node ∈ snapshot.all, node.kind = .agentDefinition →
    NodeOk modelValidate snapshot.runtimeCandidates snapshot.all node

/-- A chain of `composes_agent` bindings from the root, named by the
agents below it. -/
def Chain (snapshot : AgentResolutionSnapshot) (ns : List ResolutionNode) : Prop :=
  List.IsChain (fun a b => b ∈ composed snapshot.all a) (snapshot.agent :: ns)

/-- No agent twice on the chain, and no more bindings than the bound. -/
def LegalChain (snapshot : AgentResolutionSnapshot) (ns : List ResolutionNode) : Prop :=
  ((snapshot.agent :: ns).map (·.resourceId)).Nodup ∧ ns.length ≤ maxCompositionDepth

/-- A definition that leaves nothing of its node out, nor of any agent
composed below it. -/
inductive Complete (modelValidate : JsonValue → Option CapabilityRequirement)
    (index : List ResolutionNode) : ResolutionNode → ResolvedAgentDefinition → Prop where
  | intro {node gathered runtime composedAgents} (full : gathered.Full modelValidate index node)
      (references : composedAgents.map Prod.fst =
        (composed index node).map (preserved node · .composesAgent))
      (below : List.Forall₂ (Complete modelValidate index) (composed index node)
        (composedAgents.map Prod.snd)) :
      Complete modelValidate index node (assemble node gathered composedAgents runtime)

theorem nodeAt_append (index nodes) (resourceId version) :
    nodeAt (index ++ nodes) resourceId version =
      (nodeAt index resourceId version).or (nodeAt nodes resourceId version) :=
  List.find?_append

theorem nodeAt_mem {resourceId version} (h : nodeAt index resourceId version = some node) :
    node ∈ index ∧ node.pin = (resourceId, version) := by
  have hfound := List.find?_some h
  simp only [decide_eq_true_eq] at hfound
  exact ⟨List.mem_of_find?_eq_some h, by rw [ResolutionNode.pin, hfound.1, hfound.2]⟩

theorem foldlM_addNode (index nodes)
    (h : ∀ node ∈ index ++ nodes, ∀ node' ∈ index ++ nodes, node.pin = node'.pin → node = node') :
    ∃ built, nodes.foldlM addNode index = .ok built ∧ ∀ resourceId version,
        nodeAt built resourceId version = nodeAt (index ++ nodes) resourceId version := by
  induction nodes generalizing index with
  | nil => exact ⟨index, rfl, by simp⟩
  | cons node nodes ih =>
    cases hfound : nodeAt index node.resourceId node.version with
    | none =>
      have hadd : addNode index node = .ok (index ++ [node]) := by
        simp [addNode, hfound]
      obtain ⟨built, hbuilt, hnodeAt⟩ := ih (index ++ [node]) (by simpa using h)
      refine ⟨built, ?_, by simpa using hnodeAt⟩
      rw [foldlM_cons, hadd]
      exact hbuilt
    | some existing =>
      obtain ⟨hmem, hpin⟩ := nodeAt_mem hfound
      obtain rfl : existing = node := h existing (mem_append_left _ hmem) node (by simp) hpin
      have hadd : addNode index existing = .ok index := by
        simp [addNode, hfound]
      have hsub : ∀ n, n ∈ index ++ nodes → n ∈ index ++ existing :: nodes := by
        intro n hn
        rcases mem_append.mp hn with hn | hn
        · exact mem_append_left _ hn
        · exact mem_append_right _ (.tail _ hn)
      obtain ⟨built, hbuilt, hnodeAt⟩ := ih index
        fun n hn n' hn' => h n (hsub n hn) n' (hsub n' hn')
      refine ⟨built, ?_, ?_⟩
      · rw [foldlM_cons, hadd]
        exact hbuilt
      intro resourceId version
      rw [hnodeAt, nodeAt_append, nodeAt_append]
      -- A second copy of an indexed node is never the one found.
      cases hcase : nodeAt index resourceId version with
      | some n => rfl
      | none =>
        have hnot : ¬ (existing.resourceId = resourceId ∧ existing.version = version) := by
          rintro ⟨rfl, rfl⟩
          rw [hfound] at hcase
          cases hcase
        show nodeAt nodes resourceId version = nodeAt (existing :: nodes) resourceId version
        unfold nodeAt
        rw [List.find?_cons_of_neg (by simpa using hnot)]

variable {depth : Nat}

theorem gather_congr {index'}
    (h : ∀ resourceId version, nodeAt index resourceId version = nodeAt index' resourceId version)
    (root) : gather modelValidate index root = gather modelValidate index' root := by
  have hlookup : lookup index = lookup index' := by
    funext binding via
    unfold lookup
    rw [h]
  have hbinding : addBinding index root = addBinding index' root := by
    funext direct binding
    unfold addBinding
    rw [hlookup]
  have hskill : expandSkill index root = expandSkill index' root := by
    funext skill
    unfold expandSkill
    have hrule : ∀ path, skillRule index skill path = skillRule index' skill path := by
      intro path
      funext binding
      unfold skillRule
      rw [hlookup]
    rw [hrule]
  unfold gather
  rw [hbinding, hskill]

theorem resolveNode_congr {index'}
    (h : ∀ resourceId version, nodeAt index resourceId version = nodeAt index' resourceId version)
    (fuel) (root visited) (depth) :
    resolveNode modelValidate candidates index fuel root visited depth =
      resolveNode modelValidate candidates index' fuel root visited depth := by
  induction fuel generalizing root visited depth with
  | zero => rfl
  | succ fuel ih =>
    have hcomposed : resolveComposed modelValidate candidates index fuel root visited depth =
        resolveComposed modelValidate candidates index' fuel root visited depth := by
      funext node
      unfold resolveComposed
      rw [ih]
    rw [resolveNode_succ, resolveNode_succ, gather_congr h, hcomposed]

/-! ## The recursion as a walk -/

theorem mapM_findSome? {α β γ : Type} {f : α → Except Halt β} {g : α → Option γ}
    {P : α → β → Prop} {Q : γ → Halt → Prop} {l : List α}
    (hok : ∀ a ∈ l, g a = none → ∃ b, f a = .ok b ∧ P a b)
    (herror : ∀ a ∈ l, ∀ c, g a = some c → ∃ e, f a = .error e ∧ Q c e) :
    (l.findSome? g = none → ∃ bs, l.mapM f = .ok bs ∧ List.Forall₂ P l bs) ∧
      ∀ c, l.findSome? g = some c → ∃ e, l.mapM f = .error e ∧ Q c e := by
  induction l with
  | nil => exact ⟨fun _ => ⟨[], rfl, .nil⟩, by simp⟩
  | cons a l ih =>
    obtain ⟨ihok, iherror⟩ := ih (fun b hb => hok b (.tail _ hb)) fun b hb => herror b (.tail _ hb)
    rw [mapM_cons, List.findSome?_cons]
    cases ha : g a with
    | some c =>
      obtain ⟨e, he, hq⟩ := herror a (.head _) c ha
      refine ⟨by simp, ?_⟩
      rintro _ ⟨⟩
      rw [he]
      exact ⟨e, rfl, hq⟩
    | none =>
      obtain ⟨b, hb, hp⟩ := hok a (.head _) ha
      rw [hb]
      constructor
      · intro hnone
        obtain ⟨bs, hbs, hall⟩ := ihok hnone
        refine ⟨b :: bs, ?_, .cons hp hall⟩
        show (l.mapM f >>= _) = _
        rw [hbs]
        rfl
      · intro c hc
        obtain ⟨e, he, hq⟩ := iherror c hc
        refine ⟨e, ?_, hq⟩
        show (l.mapM f >>= _) = _
        rw [he]
        rfl

/-- The error a fault of the walk is reported by. -/
def faultCode : Fault → ResolutionErrorCode
  | .repeated => .compositionCycleDetected
  | .tooDeep => .compositionDepthExceeded
  | .bad => .invalidResolutionInput

/-- A call ended with an error of this code. -/
def FailedWith (fault : Fault) (halt : Halt) : Prop :=
  ∃ error, halt = .failure error ∧ error.errorCode = faultCode fault

/-- The walk of `_resolve_node` from a node. -/
def walk (index : List ResolutionNode) (left : Nat) (visited : List Uuid)
    (node : ResolutionNode) : Option Fault :=
  firstFault (composed index) (·.resourceId) bindsHook left visited node

theorem composed_agent {child} (hnode : node.kind = .agentDefinition)
    (hok : NodeOk modelValidate candidates index node) (h : child ∈ composed index node) :
    child ∈ index ∧ child.kind = .agentDefinition := by
  obtain ⟨binding, -, -, hfound⟩ := mem_targets h
  exact ⟨(nodeAt_mem hfound).1, kind_of_target hnode hok.bindings rfl h⟩

theorem guardNode_of_mem (depth) (hroot : root.kind = .agentDefinition)
    (hvisited : root.resourceId ∈ visited) :
    ∃ error, guardNode root visited depth = .error error ∧
      error.errorCode = .compositionCycleDetected := by
  unfold guardNode
  rw [if_neg (not_not_intro hroot), if_pos hvisited]
  exact ⟨_, rfl, rfl⟩

theorem guardNode_of_deep (depth) (hroot : root.kind = .agentDefinition)
    (hvisited : root.resourceId ∉ visited)
    (hdeep : depth > maxCompositionDepth) : ∃ error, guardNode root visited depth = .error error ∧
      error.errorCode = .compositionDepthExceeded := by
  unfold guardNode
  rw [if_neg (not_not_intro hroot), if_neg hvisited, if_pos hdeep]
  exact ⟨_, rfl, rfl⟩

theorem guardNode_ok (hroot : root.kind = .agentDefinition) (hvisited : root.resourceId ∉ visited)
    (hdepth : depth ≤ maxCompositionDepth) : guardNode root visited depth = .ok () := by
  unfold guardNode
  rw [if_neg (not_not_intro hroot), if_neg hvisited, if_neg (Nat.not_lt.mpr hdepth)]

theorem resolvedRuntime_ok {profile} (hok : NodeOk modelValidate candidates index root)
    (hprofile : chosenProfile modelValidate root (targets index root .requiresModelProfile) =
      .ok profile) : ∃ runtime, resolvedRuntime candidates root profile = .ok runtime := by
  obtain ⟨winner, hwinner, hcompatible⟩ := hok.runtime profile hprofile
  unfold resolvedRuntime
  rw [hwinner]
  cases winner with
  | none => exact ⟨none, rfl⟩
  | some winner =>
    show ∃ runtime, (if checkCompatibility profile.requirements winner.target.capabilities ≠ []
      then _ else _) = Except.ok runtime
    rw [if_neg (not_not_intro (hcompatible winner rfl))]
    exact ⟨_, rfl⟩

theorem references_of_forall₂ {children entries}
    (h : List.Forall₂ (fun child entry => entry.1 = preserved root child .composesAgent ∧
      Complete modelValidate index child entry.2) children entries) :
    entries.map Prod.fst = children.map (preserved root · .composesAgent) := by
  induction h with
  | nil => rfl
  | cons hentry _ ih => rw [map_cons, map_cons, hentry.1, ih]

theorem below_of_forall₂ {children entries}
    (h : List.Forall₂ (fun child entry => entry.1 = preserved root child .composesAgent ∧
      Complete modelValidate index child entry.2) children entries) :
    List.Forall₂ (Complete modelValidate index) children (entries.map Prod.snd) := by
  induction h with
  | nil => exact .nil
  | cons hentry _ ih => exact .cons hentry.2 ih

/-- On well-formed nodes the recursion reports what the walk reports,
and where the walk meets no fault the definition is complete. The nodes
it enters are among those of a set that is closed under composition. -/
theorem resolveNode_spec (entered : ResolutionNode → Prop)
    (hnodes : ∀ node, entered node → NodeOk modelValidate candidates index node)
    (hclosed : ∀ node, entered node → ∀ child ∈ composed index node, entered child) {left fuel}
    (hleft : left + depth = maxCompositionDepth + 1) (hfuel : left < fuel) (hmem : entered root)
    (hroot : root.kind = .agentDefinition) (visited : List Uuid) :
    (walk index left visited root = none → ∃ definition,
      resolveNode modelValidate candidates index fuel root visited depth = .ok definition ∧
        Complete modelValidate index root definition) ∧
    ∀ fault, walk index left visited root = some fault → ∃ halt,
      resolveNode modelValidate candidates index fuel root visited depth = .error halt ∧
        FailedWith fault halt := by
  induction left generalizing fuel depth root visited with
  | zero =>
    obtain ⟨fuel, rfl⟩ := Nat.exists_eq_succ_of_ne_zero (Nat.ne_of_gt hfuel)
    unfold walk firstFault
    split
    · rename_i hvisited
      obtain ⟨error, hguard, hcode⟩ := guardNode_of_mem depth hroot hvisited
      refine ⟨by simp, ?_⟩
      rintro _ ⟨⟩
      exact ⟨_, resolveNode_of_guard_error hguard, error, rfl, hcode⟩
    · rename_i hvisited
      obtain ⟨error, hguard, hcode⟩ := guardNode_of_deep depth hroot hvisited (by omega)
      refine ⟨by simp, ?_⟩
      rintro _ ⟨⟩
      exact ⟨_, resolveNode_of_guard_error hguard, error, rfl, hcode⟩
  | succ left ih =>
    obtain ⟨fuel, rfl⟩ := Nat.exists_eq_succ_of_ne_zero (Nat.ne_of_gt (Nat.zero_lt_of_lt hfuel))
    have hok := hnodes root hmem
    unfold walk firstFault
    split
    · rename_i hvisited
      obtain ⟨error, hguard, hcode⟩ := guardNode_of_mem depth hroot hvisited
      refine ⟨by simp, ?_⟩
      rintro _ ⟨⟩
      exact ⟨_, resolveNode_of_guard_error hguard, error, rfl, hcode⟩
    rename_i hvisited
    have hdepth : depth ≤ maxCompositionDepth := by omega
    have hguard := guardNode_ok hroot hvisited hdepth
    split
    · rename_i hhook
      refine ⟨by simp, ?_⟩
      rintro _ ⟨⟩
      exact ⟨_, resolveNode_of_gather_error hguard (gather_of_hook hroot hok hhook), _, rfl, rfl⟩
    rename_i hhook
    obtain ⟨gathered, hgather, hfull⟩ := gather_ok hroot hok (by simpa using hhook)
    rw [resolveNode_of_gather_ok hguard hgather, hfull.composedNodes]
    have hchild := fun child (h : child ∈ composed index root) =>
      ih (by omega : left + (depth + 1) = maxCompositionDepth + 1)
        (Nat.lt_of_succ_lt_succ hfuel) (hclosed root hmem child h)
        (composed_agent hroot hok h).2 (root.resourceId :: visited)
    obtain ⟨hall, hfirst⟩ := mapM_findSome? (l := composed index root)
      (f := resolveComposed modelValidate candidates index fuel root visited depth)
      (g := walk index left (root.resourceId :: visited))
      (P := fun child entry => entry.1 = preserved root child .composesAgent ∧
        Complete modelValidate index child entry.2)
      (Q := FailedWith)
      (by
        intro child h hnone
        obtain ⟨definition, hdefinition, hcomplete⟩ := (hchild child h).1 hnone
        refine ⟨(preserved root child .composesAgent, definition), ?_, rfl, hcomplete⟩
        unfold resolveComposed
        rw [hdefinition]
        rfl)
      (by
        intro child h fault hfault
        obtain ⟨halt, hhalt, hfailed⟩ := (hchild child h).2 fault hfault
        refine ⟨halt, ?_, hfailed⟩
        unfold resolveComposed
        rw [hhalt]
        rfl)
    constructor
    · intro hnone
      obtain ⟨composedAgents, hcomposed, hentries⟩ := hall hnone
      obtain ⟨runtime, hruntime⟩ := resolvedRuntime_ok hok hfull.profile
      refine ⟨assemble root gathered composedAgents runtime, ?_, .intro hfull ?_ ?_⟩
      · show ((composed index root).mapM _ >>= _) = _
        rw [hcomposed]
        show (raised (resolvedRuntime candidates root gathered.profile) >>= _) = _
        rw [hruntime]
        rfl
      · exact references_of_forall₂ hentries
      · exact below_of_forall₂ hentries
    · intro fault hfault
      obtain ⟨halt, hhalt, hfailed⟩ := hfirst fault hfault
      refine ⟨halt, ?_, hfailed⟩
      show ((composed index root).mapM _ >>= _) = _
      rw [hhalt]
      rfl

/-! ## Which snapshots are resolved -/

theorem legalChain_iff {ns} : LegalChain snapshot ns ↔
      Legal (·.resourceId) (maxCompositionDepth + 1) [] snapshot.agent ns := by
  constructor
  · rintro ⟨hnodup, hshort⟩
    exact ⟨hnodup, by simp, Nat.lt_succ_of_le hshort⟩
  · intro h
    exact ⟨h.nodup, Nat.le_of_lt_succ h.short⟩

/-- Some agent binds a hook, and no chain met on the way to it is
illegal: the walk follows the bindings in their order. -/
def HookFirst (snapshot : AgentResolutionSnapshot) : Prop :=
  ∃ p ns, follow (composed snapshot.all) snapshot.agent p = some ns ∧
    bindsHook (lastOf snapshot.agent ns) = true ∧
    ∀ q ms, q ≤ p → follow (composed snapshot.all) snapshot.agent q = some ms →
      LegalChain snapshot ms

theorem hookFirst_iff :
    HookFirst snapshot ↔ walk snapshot.all (maxCompositionDepth + 1) [] snapshot.agent =
      some .bad := by
  unfold HookFirst walk
  rw [firstFault_eq_bad_iff]
  simp [legalChain_iff]

/-- The outcome asked of a well-formed snapshot: a complete definition
when every chain is legal, a cycle or depth error otherwise. -/
def FailsClosed (modelValidate : JsonValue → Option CapabilityRequirement)
    (snapshot : AgentResolutionSnapshot) : Prop :=
  ∃ outcome, Returns modelValidate snapshot outcome ∧
    ((∀ ns, Chain snapshot ns → LegalChain snapshot ns) → ∃ definition,
      outcome = .ok definition ∧ Complete modelValidate snapshot.all snapshot.agent definition) ∧
    ((¬ ∀ ns, Chain snapshot ns → LegalChain snapshot ns) → ∃ error,
      outcome = .error error ∧ (error.errorCode = .compositionCycleDetected ∨
        error.errorCode = .compositionDepthExceeded))

theorem resolveAgent_spec (hok : WellFormed modelValidate snapshot) :
    (walk snapshot.all (maxCompositionDepth + 1) [] snapshot.agent = none → ∃ definition,
      Returns modelValidate snapshot (.ok definition) ∧
        Complete modelValidate snapshot.all snapshot.agent definition) ∧
    ∀ fault, walk snapshot.all (maxCompositionDepth + 1) [] snapshot.agent = some fault →
      ∃ error, Returns modelValidate snapshot (.error error) ∧
        error.errorCode = faultCode fault := by
  obtain ⟨index, hindex, hlookup⟩ := foldlM_addNode [] snapshot.all hok.consistent
  have hrun : ∀ fuel, resolveAgent modelValidate fuel snapshot =
      resolveNode modelValidate snapshot.runtimeCandidates snapshot.all fuel snapshot.agent [] 0 := by
    intro fuel
    have hraised : resolveAgent modelValidate fuel snapshot =
        resolveNode modelValidate snapshot.runtimeCandidates index fuel snapshot.agent [] 0 := by
      unfold resolveAgent
      rw [show snapshot.agent :: snapshot.nodes = snapshot.all from rfl, hindex]
      rfl
    rw [hraised]
    exact resolveNode_congr hlookup fuel snapshot.agent [] 0
  obtain ⟨outcome, enough, houtcome⟩ := @resolveAgent_returns modelValidate snapshot
  -- One run with enough fuel for both the bound and the walk.
  let fuel := max enough (maxCompositionDepth + 2)
  have hfuel : maxCompositionDepth + 1 < fuel := Nat.le_max_right ..
  have hreturn : ∀ result, resolveNode modelValidate snapshot.runtimeCandidates snapshot.all fuel
      snapshot.agent [] 0 = raised result → Returns modelValidate snapshot result := by
    intro result hresult
    have heq : raised outcome = raised result :=
      (houtcome fuel (Nat.le_max_left ..)).symm.trans ((hrun fuel).trans hresult)
    exact ⟨enough, fun fuel' h => (houtcome fuel' h).trans heq⟩
  obtain ⟨hnone, hsome⟩ := resolveNode_spec
    (fun node => node ∈ snapshot.all ∧ node.kind = .agentDefinition)
    (fun node hnode => hok.nodes node hnode.1 hnode.2)
    (fun node hnode child h => composed_agent hnode.2 (hok.nodes node hnode.1 hnode.2) h)
    (Nat.add_zero (maxCompositionDepth + 1)) hfuel ⟨.head _, hok.root⟩ hok.root []
  constructor
  · intro hwalk
    obtain ⟨definition, hdefinition, hcomplete⟩ := hnone hwalk
    exact ⟨definition, hreturn (.ok definition) hdefinition, hcomplete⟩
  · intro fault hwalk
    obtain ⟨_, hfailed, error, rfl, hcode⟩ := hsome fault hwalk
    exact ⟨error, hreturn (.error error) hfailed, hcode⟩

theorem chains_legal_iff : (∀ ns, Chain snapshot ns → LegalChain snapshot ns) ↔
      ∀ p ns, follow (composed snapshot.all) snapshot.agent p = some ns →
        Legal (·.resourceId) (maxCompositionDepth + 1) [] snapshot.agent ns := by
  constructor
  · intro h p ns hns
    exact legalChain_iff.mp (h ns (isChain_iff_follow.mpr ⟨p, hns⟩))
  · intro h ns hns
    obtain ⟨p, hp⟩ := isChain_iff_follow.mp hns
    exact legalChain_iff.mpr (h p ns hp)

theorem not_failsClosed_of_bad (hok : WellFormed modelValidate snapshot)
    (hbad : walk snapshot.all (maxCompositionDepth + 1) [] snapshot.agent = some .bad) :
    ¬ FailsClosed modelValidate snapshot := by
  rintro ⟨outcome, houtcome, hlegal, hillegal⟩
  obtain ⟨error, herror, hcode⟩ := (resolveAgent_spec hok).2 .bad hbad
  obtain rfl := houtcome.unique herror
  by_cases hchains : ∀ ns, Chain snapshot ns → LegalChain snapshot ns
  · obtain ⟨definition, hdefinition, -⟩ := hlegal hchains
    cases hdefinition
  · obtain ⟨error', herror', hcode'⟩ := hillegal hchains
    injection herror' with herror'
    rw [← herror', hcode] at hcode'
    rcases hcode' with h | h <;> cases h

/-- `resolve_agent` returns for every snapshot, and a well-formed one is
resolved or refused by its chains unless an agent that binds a hook is
met first. -/
theorem resolution_fails_closed (modelValidate : JsonValue → Option CapabilityRequirement)
    (snapshot : AgentResolutionSnapshot) : (∃ outcome, Returns modelValidate snapshot outcome) ∧
      (WellFormed modelValidate snapshot →
        (FailsClosed modelValidate snapshot ↔ ¬ HookFirst snapshot)) := by
  refine ⟨resolveAgent_returns snapshot, ?_⟩
  intro hok
  obtain ⟨hnone, hsome⟩ := resolveAgent_spec hok
  rw [hookFirst_iff]
  constructor
  · intro hclosed hbad
    exact not_failsClosed_of_bad hok hbad hclosed
  intro hbad
  cases hwalk : walk snapshot.all (maxCompositionDepth + 1) [] snapshot.agent with
  | none =>
    obtain ⟨definition, hdefinition, hcomplete⟩ := hnone hwalk
    refine ⟨_, hdefinition, fun _ => ⟨definition, rfl, hcomplete⟩, ?_⟩
    intro hillegal
    have hall := firstFault_eq_none_iff.mp hwalk
    exact absurd (chains_legal_iff.mpr fun p ns hns => (hall p ns hns).1) hillegal
  | some fault =>
    obtain ⟨error, herror, hcode⟩ := hsome fault hwalk
    refine ⟨_, herror, ?_, ?_⟩
    · intro hlegal
      -- Only a hook stops a walk whose chains are all legal.
      have := firstFault_of_legal (chains_legal_iff.mp hlegal) hwalk
      rw [this] at hwalk
      exact absurd hwalk hbad
    · intro _
      refine ⟨error, rfl, ?_⟩
      cases fault with
      | repeated => exact .inl hcode
      | tooDeep => exact .inr hcode
      | bad => exact absurd hwalk hbad

/-- A studio version with nothing in it but its bindings. -/
def plainNode (id : String) (kind : LibraryKind) (bindings : List NodeBinding) : ResolutionNode :=
  { resourceId := ⟨id⟩, kind := kind, stableKey := id, scope := .studio, version := 1,
    versionOrigin := .pin, bindings := bindings }

/-- `model_validate` on an empty object: every field has a default. -/
def validateEmpty (raw : JsonValue) : Option CapabilityRequirement :=
  if raw = ⟨true, "\x7b\x7d"⟩ then some {} else none

def composedSnapshot : AgentResolutionSnapshot :=
  { agent := plainNode "lead" .agentDefinition [⟨.composesAgent, ⟨"base"⟩, 1⟩]
    nodes := [plainNode "base" .agentDefinition []] }

def hookSnapshot : AgentResolutionSnapshot :=
  { agent := plainNode "lead" .agentDefinition [⟨.usesHook, ⟨"guard"⟩, 1⟩]
    nodes := [plainNode "guard" .hook []] }

theorem selectFrom_nil (choices) : selectFrom [] choices = .ok none := by
  induction choices with
  | nil => rfl
  | cons choice choices ih => exact ih

theorem nodeOk_of_no_targets (hcandidates : candidates = [])
    (hbindings : ∀ binding ∈ node.bindings, BindingOk index node binding)
    (hskills : targets index node .usesSkill = []) (hrules : targets index node .appliesRule = [])
    (hprofiles : targets index node .requiresModelProfile = []) :
    NodeOk modelValidate candidates index node where
  bindings := hbindings
  skills := by simp [hskills]
  rules := by simp [ruleTargets, hskills, hrules]
  oneProfile := by simp [hprofiles]
  requirements := by simp [hprofiles]
  runtime := by
    intro profile _
    refine ⟨none, ?_, by simp⟩
    rw [hcandidates]
    exact selectFrom_nil _

theorem composedSnapshot_wellFormed : WellFormed validateEmpty composedSnapshot where
  root := rfl
  consistent := by decide
  nodes := by
    intro node hnode _
    apply nodeOk_of_no_targets rfl
    · intro binding hbinding
      rcases mem_cons.mp hnode with rfl | hnode
      · obtain rfl : binding = _ := mem_singleton.mp hbinding
        exact ⟨plainNode "base" .agentDefinition [], rfl, rfl⟩
      · obtain rfl : node = _ := mem_singleton.mp hnode
        cases hbinding
    all_goals revert node; decide

theorem resolution_fails_closed_composed : FailsClosed validateEmpty composedSnapshot :=
  ((resolution_fails_closed validateEmpty composedSnapshot).2 composedSnapshot_wellFormed).mpr
    (hookFirst_iff.not.mpr (by decide))

theorem hookSnapshot_wellFormed : WellFormed validateEmpty hookSnapshot where
  root := rfl
  consistent := by decide
  nodes := by
    intro node hnode hagent
    apply nodeOk_of_no_targets rfl
    · intro binding hbinding
      rcases mem_cons.mp hnode with rfl | hnode
      · obtain rfl : binding = _ := mem_singleton.mp hbinding
        exact ⟨plainNode "guard" .hook [], rfl, rfl⟩
      · obtain rfl : node = _ := mem_singleton.mp hnode
        cases hagent
    all_goals revert node; decide

/-- A hook binding is an input error, although the matrix lets an agent
bind hooks. -/
theorem hook_binding_refused :
    WellFormed validateEmpty hookSnapshot ∧ ¬ FailsClosed validateEmpty hookSnapshot :=
  ⟨hookSnapshot_wellFormed, not_failsClosed_of_bad hookSnapshot_wellFormed (by decide)⟩

end StudioOS.Resolution
