import StudioOS.Resolution.Gather

/-!
# Resolution — Returns

The recursion of `_resolve_node`, call by call, and its termination:
`resolve_agent` returns for every snapshot, whatever its bindings
(`resolveAgent_returns`).
-/

namespace StudioOS.Resolution

variable {modelValidate : JsonValue → Option CapabilityRequirement}
  {candidates : List RuntimeCandidate} {index : List ResolutionNode}

section Call

variable {fuel depth : Nat} {root : ResolutionNode} {visited : List Uuid} {gathered : Gathered}

def resolveComposed (modelValidate : JsonValue → Option CapabilityRequirement)
    (candidates : List RuntimeCandidate) (index : List ResolutionNode) (fuel : Nat)
    (root : ResolutionNode) (visited : List Uuid) (depth : Nat) (node : ResolutionNode) :
    Except Halt (PreservedReference × ResolvedAgentDefinition) := do
  let resolved ← resolveNode modelValidate candidates index fuel node
    (root.resourceId :: visited) (depth + 1)
  return (preserved root node .composesAgent, resolved)

def assemble (root : ResolutionNode) (gathered : Gathered)
    (composedAgents : List (PreservedReference × ResolvedAgentDefinition))
    (runtime : Option ResolvedRuntime) : ResolvedAgentDefinition :=
  { agent := resolvedAgent root
    rules := gathered.rules
    skills := gathered.skills
    modelProfile := gathered.profile.modelProfile
    requirements := gathered.profile.requirements
    composedAgents := composedAgents
    workflows := gathered.workflows
    runtime := runtime }

theorem resolveNode_succ :
    resolveNode modelValidate candidates index (fuel + 1) root visited depth = (do
      raised (guardNode root visited depth)
      let gathered ← raised (gather modelValidate index root)
      let composedAgents ← gathered.composedNodes.mapM
        (resolveComposed modelValidate candidates index fuel root visited depth)
      let runtime ← raised (resolvedRuntime candidates root gathered.profile)
      return assemble root gathered composedAgents runtime) := rfl

theorem resolveNode_of_guard_error {error} (hguard : guardNode root visited depth = .error error) :
    resolveNode modelValidate candidates index (fuel + 1) root visited depth =
      .error (.failure error) := by
  rw [resolveNode_succ, hguard]
  rfl

theorem resolveNode_of_gather_error {error} (hguard : guardNode root visited depth = .ok ())
    (hgather : gather modelValidate index root = .error error) :
    resolveNode modelValidate candidates index (fuel + 1) root visited depth =
      .error (.failure error) := by
  rw [resolveNode_succ, hguard, hgather]
  rfl

theorem resolveNode_of_gather_ok (hguard : guardNode root visited depth = .ok ())
    (hgather : gather modelValidate index root = .ok gathered) :
    resolveNode modelValidate candidates index (fuel + 1) root visited depth = (do
      let composedAgents ← gathered.composedNodes.mapM
        (resolveComposed modelValidate candidates index fuel root visited depth)
      let runtime ← raised (resolvedRuntime candidates root gathered.profile)
      return assemble root gathered composedAgents runtime) := by
  rw [resolveNode_succ, hguard, hgather]
  rfl

end Call

/-! ## Termination -/

theorem mapM_raised {α β : Type} {f : α → Except Halt β} {g : α → Except ResolutionError β}
    {l : List α} (h : ∀ a ∈ l, f a = raised (g a)) : l.mapM f = raised (l.mapM g) := by
  induction l with
  | nil => rfl
  | cons a l ih =>
    rw [List.mapM_cons, List.mapM_cons, h a (.head _), ih fun b hb => h b (.tail _ hb)]
    cases g a with
    | error e => rfl
    | ok b =>
      cases l.mapM g with
      | error | ok => rfl

/-- The recursion stops: each call is one deeper than its caller, and
none goes below the bound. -/
theorem resolveNode_returns (root visited) (depth) :
    ∃ outcome, ∀ fuel, maxCompositionDepth + 1 - depth < fuel →
      resolveNode modelValidate candidates index fuel root visited depth = raised outcome := by
  induction hleft : maxCompositionDepth + 1 - depth generalizing root visited depth with
  | zero =>
    have hdeep : depth > maxCompositionDepth := by omega
    -- Every call at this depth is refused by its first checks.
    obtain ⟨error, herror⟩ : ∃ error, guardNode root visited depth = .error error := by
      unfold guardNode
      rw [if_pos hdeep]
      split
      · exact ⟨_, rfl⟩
      split <;> exact ⟨_, rfl⟩
    refine ⟨.error error, ?_⟩
    intro fuel hfuel
    obtain ⟨fuel, rfl⟩ := Nat.exists_eq_succ_of_ne_zero (Nat.ne_of_gt hfuel)
    exact resolveNode_of_guard_error herror
  | succ left ih =>
    have hnext : maxCompositionDepth + 1 - (depth + 1) = left := by omega
    choose outcome houtcome using fun node => ih node (root.resourceId :: visited) (depth + 1)
      hnext
    refine ⟨(do
      guardNode root visited depth
      let gathered ← gather modelValidate index root
      let composedAgents ← gathered.composedNodes.mapM fun node => do
        return (preserved root node .composesAgent, ← outcome node)
      let runtime ← resolvedRuntime candidates root gathered.profile
      return assemble root gathered composedAgents runtime), ?_⟩
    intro fuel hfuel
    obtain ⟨fuel, rfl⟩ := Nat.exists_eq_succ_of_ne_zero (Nat.ne_of_gt (Nat.zero_lt_of_lt hfuel))
    cases hguard : guardNode root visited depth with
    | error e => exact resolveNode_of_guard_error hguard
    | ok _ =>
      cases hgather : gather modelValidate index root with
      | error e => exact resolveNode_of_gather_error hguard hgather
      | ok gathered =>
        rw [resolveNode_of_gather_ok hguard hgather]
        have hcomposed : gathered.composedNodes.mapM
            (resolveComposed modelValidate candidates index fuel root visited depth) =
              raised (gathered.composedNodes.mapM fun node => do
                return (preserved root node .composesAgent, ← outcome node)) := by
          apply mapM_raised
          intro node _
          unfold resolveComposed
          rw [houtcome node fuel (Nat.lt_of_succ_lt_succ hfuel)]
          cases outcome node with
          | error | ok => rfl
        rw [hcomposed]
        show _ = raised (gathered.composedNodes.mapM _ >>= _)
        cases gathered.composedNodes.mapM fun node => (do
            return (preserved root node .composesAgent, ← outcome node) :
              Except ResolutionError _) with
        | error e => rfl
        | ok composedAgents =>
          show (raised (resolvedRuntime candidates root gathered.profile) >>= _) =
            raised (resolvedRuntime candidates root gathered.profile >>= _)
          cases resolvedRuntime candidates root gathered.profile with
          | error | ok => rfl

/-- `resolve_agent` returns this outcome: a run that is given enough
fuel ends in it. -/
def Returns (modelValidate : JsonValue → Option CapabilityRequirement)
    (snapshot : AgentResolutionSnapshot)
    (outcome : Except ResolutionError ResolvedAgentDefinition) : Prop :=
  ∃ enough, ∀ fuel, enough ≤ fuel → resolveAgent modelValidate fuel snapshot = raised outcome

theorem Returns.unique {snapshot outcome outcome'} (h : Returns modelValidate snapshot outcome)
    (h' : Returns modelValidate snapshot outcome') :
    outcome = outcome' := by
  obtain ⟨enough, h⟩ := h
  obtain ⟨enough', h'⟩ := h'
  have heq : raised outcome = raised outcome' :=
    (h (max enough enough') (Nat.le_max_left ..)).symm.trans (h' _ (Nat.le_max_right ..))
  cases outcome with
  | error e =>
    cases outcome' with
    | error e' =>
      injection heq with heq
      injection heq with heq
      rw [heq]
    | ok d' => cases heq
  | ok d =>
    cases outcome' with
    | error e' => cases heq
    | ok d' =>
      injection heq with heq
      rw [heq]

theorem resolveAgent_within (snapshot) :
    ∃ outcome, ∀ fuel, maxCompositionDepth + 2 ≤ fuel →
      resolveAgent modelValidate fuel snapshot = raised outcome := by
  cases hindex : (snapshot.agent :: snapshot.nodes).foldlM addNode [] with
  | error e =>
    refine ⟨.error e, ?_⟩
    intro fuel _
    unfold resolveAgent
    rw [hindex]
    rfl
  | ok index =>
    obtain ⟨outcome, houtcome⟩ := @resolveNode_returns modelValidate
      snapshot.runtimeCandidates index snapshot.agent [] 0
    refine ⟨outcome, ?_⟩
    intro fuel hfuel
    unfold resolveAgent
    rw [hindex]
    exact houtcome fuel (by omega)

theorem resolveAgent_returns (snapshot) : ∃ outcome, Returns modelValidate snapshot outcome := by
  obtain ⟨outcome, houtcome⟩ := @resolveAgent_within modelValidate snapshot
  exact ⟨outcome, maxCompositionDepth + 2, houtcome⟩

end StudioOS.Resolution
