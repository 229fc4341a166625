import Mathlib.Data.List.Chain
import StudioOS.Resolution.Lookups
import StudioOS.Resolution.PinGraph

/-!
# Resolution — Agreement

The loader and the core on one library. What `resolve_agent` answers
from the loaded snapshot is what it would answer from the graph of all
stored pins, as long as the version at the root does not pin itself
(`loader_agrees`).
-/

namespace StudioOS.Resolution

open List Option Authz AiLibrary Expansion Relation Runs

variable {modelValidate : JsonValue → Option CapabilityRequirement}
  {candidates : List RuntimeCandidate} {principal : Principal} {tables : Tables}
  {node : ResolutionNode} {row : LibraryVersion} {fuel depth : Nat} {visited : List Uuid}
  {root : ResolutionNode} {index nodes : List ResolutionNode}

theorem guardNode_eq_ok (h : guardNode root visited depth = .ok ()) :
    root.kind = .agentDefinition ∧ root.resourceId ∉ visited ∧ depth ≤ maxCompositionDepth := by
  unfold guardNode at h
  split at h
  · cases h
  rename_i hkind
  split at h
  · cases h
  rename_i hfresh
  split at h
  · cases h
  rename_i hdepth
  exact ⟨not_not.mp hkind, hfresh, Nat.not_lt.mp hdepth⟩

def Holds (index graph nodes : List ResolutionNode) : Prop :=
  ∀ n ∈ nodes, nodeAt index n.resourceId n.version = some n ∧
    nodeAt graph n.resourceId n.version = some n

theorem found_of_loaded (h : tables.Sound) (hholds : Holds index (pinGraph tables) nodes) {binding}
    (hnode : node ∈ nodes) (hload : loadPinned principal tables binding = .ok node) :
    found index binding = some node ∧ found (pinGraph tables) binding = some node := by
  obtain ⟨target, hpin, hisNode, -⟩ := loadPinned_ok h hload
  have hsame : (node.resourceId, node.version) =
      (binding.targetResourceId, binding.targetVersion) := hisNode.pin.trans hpin
  obtain ⟨hid, hversion⟩ := Prod.mk.inj hsame
  unfold found
  rw [← hid, ← hversion]
  exact hholds node hnode

/-- The core resolves a loaded node from the index as from the graph:
whatever it enters was loaded, with the same chain above it. -/
theorem resolveNode_of_loaded (h : tables.Sound) (hholds : Holds index (pinGraph tables) nodes)
    (hload : node.kind = .agentDefinition → ∃ loaderFuel part, part ⊆ nodes ∧
      loadSubgraph principal tables loaderFuel node visited depth = .ok part) :
    resolveNode modelValidate candidates index fuel node visited depth =
      resolveNode modelValidate candidates (pinGraph tables) fuel node visited depth := by
  induction fuel generalizing node visited depth with
  | zero => rfl
  | succ fuel ih =>
    cases hguard : guardNode node visited depth with
    | error e => rw [resolveNode_of_guard_error hguard, resolveNode_of_guard_error hguard]
    | ok u =>
      obtain ⟨hkind, hfresh, hdepth⟩ := guardNode_eq_ok hguard
      obtain ⟨loaderFuel, part, hpart, hloaded⟩ := hload hkind
      have hcovers := fun binding hbinding =>
        @loadSubgraph_covers principal tables node loaderFuel depth visited binding part hloaded
          hfresh hdepth hbinding
      have hsame : SameLookups index (pinGraph tables) node := by
        constructor
        · intro binding hbinding
          obtain ⟨pinned, hpinned, hload, -⟩ := hcovers binding hbinding
          obtain ⟨hindex, hgraph⟩ := found_of_loaded h hholds (hpart hpinned) hload
          rw [hindex, hgraph]
        intro skill hskill hskillKind sub hsub
        obtain ⟨binding, hbinding, -, hfound⟩ := mem_targets hskill
        obtain ⟨pinned, hpinned, hload, hrules, -⟩ := hcovers binding hbinding
        obtain ⟨hindex, -⟩ := found_of_loaded h hholds (hpart hpinned) hload
        obtain rfl : skill = pinned := some.inj (hfound.symm.trans hindex)
        obtain ⟨rule, hrule, hloadRule⟩ := hrules hskillKind sub hsub
        obtain ⟨hindexRule, hgraphRule⟩ := found_of_loaded h hholds (hpart hrule) hloadRule
        rw [hindexRule, hgraphRule]
      cases hgather : gather modelValidate index node with
      | error e =>
        have hgather' := (gather_of_same hsame).symm.trans hgather
        rw [resolveNode_of_gather_error hguard hgather, resolveNode_of_gather_error hguard hgather']
      | ok gathered =>
        have hgather' := (gather_of_same hsame).symm.trans hgather
        have hcomposed : gathered.composedNodes.mapM
            (resolveComposed modelValidate candidates index fuel node visited depth) =
            gathered.composedNodes.mapM (resolveComposed modelValidate candidates
              (pinGraph tables) fuel node visited depth) := by
          apply mapM_congr
          intro child hchild
          rw [gather_composed hgather] at hchild
          obtain ⟨binding, hbinding, -, hfound⟩ := mem_targets hchild
          obtain ⟨pinned, hpinned, hload, -, hagent⟩ := hcovers binding hbinding
          obtain ⟨hindex, -⟩ := found_of_loaded h hholds (hpart hpinned) hload
          obtain rfl : child = pinned := some.inj (hfound.symm.trans hindex)
          unfold resolveComposed
          rw [ih]
          intro hchildKind
          obtain ⟨fuel', part', hpart', hloaded'⟩ := hagent hchildKind
          exact ⟨fuel', part', List.Subset.trans hpart' hpart, hloaded'⟩
        rw [resolveNode_of_gather_ok hguard hgather, resolveNode_of_gather_ok hguard hgather',
          hcomposed]

theorem nodeAt_of_consistent (hconsistent : ∀ n ∈ nodes, ∀ n' ∈ nodes, n.pin = n'.pin → n = n') {n}
    (hn : n ∈ nodes) : nodeAt nodes n.resourceId n.version = some n := by
  cases hfound : nodeAt nodes n.resourceId n.version with
  | none =>
    have hno := List.find?_eq_none.mp hfound n hn
    simp at hno
  | some n' =>
    obtain ⟨hmem, hpin⟩ := nodeAt_mem hfound
    rw [hconsistent n' hmem n hn hpin]

/-- Where the root does not pin itself, no node of the snapshot conflicts
with another one. -/
theorem snapshot_consistent (h : tables.Sound) (hnode : IsNode tables node row)
    (hself : ¬ tables.Pins row row) (hbelow : ∀ n ∈ nodes, Below tables row n) :
    ∀ n ∈ node :: nodes, ∀ n' ∈ node :: nodes, n.pin = n'.pin → n = n' := by
  have hroot : ∀ n ∈ nodes, n.pin ≠ node.pin := by
    intro n hn hpin
    obtain ⟨target, hreaches, htarget, -⟩ := hbelow n hn
    have htargetMem : target ∈ tables.versions := by
      cases hreaches with
      | single hpins => exact hpins.2.1
      | tail _ hpins => exact hpins.2.1
    have hsame : target = row := inj_on_of_nodup_map h.pins htargetMem hnode.1
      (htarget.trans (hpin.trans hnode.pin))
    rw [hsame] at hreaches
    exact hself (pins_self_of_reaches_self h hreaches)
  intro n hn n' hn' hpin
  rcases mem_cons.mp hn with heq | hmem
  · rcases mem_cons.mp hn' with heq' | hmem'
    · exact heq.trans heq'.symm
    · rw [heq] at hpin
      exact absurd hpin.symm (hroot n' hmem')
  rcases mem_cons.mp hn' with heq' | hmem'
  · rw [heq'] at hpin
    exact absurd hpin (hroot n hmem)
  · obtain ⟨-, -, -, hgraph⟩ := hbelow n hmem
    obtain ⟨-, -, -, hgraph'⟩ := hbelow n' hmem'
    obtain ⟨hid, hversion⟩ := Prod.mk.inj hpin
    rw [hid, hversion] at hgraph
    exact some.inj (hgraph.symm.trans hgraph')

theorem isNode_closed (h : tables.Sound) (hnode : IsNode tables node row) :
    Closed (pinGraph tables) node := by
  intro binding hbinding
  obtain ⟨target, hpins, hpin⟩ := pins_of_binding h hnode hbinding
  obtain ⟨resource, hresource⟩ := resource_of_version h hpins.2.1
  obtain ⟨hid, hversion⟩ := Prod.mk.inj hpin
  refine ⟨nodeOf tables resource target .pin, ?_⟩
  unfold found
  rw [← hid, ← hversion]
  exact nodeAt_pinGraph h hpins.2.1 hresource

theorem pinGraph_closed (h : tables.Sound) : ∀ n ∈ pinGraph tables, Closed (pinGraph tables) n := by
  intro n hn
  obtain ⟨row, hrow, hmap⟩ := mem_filterMap.mp hn
  obtain ⟨resource, hresource, hnode⟩ := map_eq_some_iff.mp hmap
  exact isNode_closed h ⟨hrow, resource, .pin, hresource, hnode.symm⟩

theorem resolveAgent_of_loaded (h : tables.Sound) {snapshot}
    (hnode : IsNode tables snapshot.agent row) (hself : ¬ tables.Pins row row) {loaderFuel}
    (hload : loadSubgraph principal tables loaderFuel snapshot.agent [] 0 = .ok snapshot.nodes)
    (fuel) : resolveAgent modelValidate fuel snapshot =
      resolveNode modelValidate snapshot.runtimeCandidates (pinGraph tables) fuel snapshot.agent
        [] 0 := by
  have hbelow := loadSubgraph_below h hnode hload
  have hconsistent := snapshot_consistent h hnode hself hbelow
  obtain ⟨index, hindex, hlookup⟩ := foldlM_addNode [] (snapshot.agent :: snapshot.nodes)
    hconsistent
  have hraised : resolveAgent modelValidate fuel snapshot =
      resolveNode modelValidate snapshot.runtimeCandidates index fuel snapshot.agent [] 0 := by
    unfold resolveAgent
    rw [hindex]
    rfl
  rw [hraised]
  apply resolveNode_of_loaded h
  · intro n hn
    constructor
    · rw [hlookup]
      exact nodeAt_of_consistent hconsistent (.tail _ hn)
    · obtain ⟨-, -, -, hgraph⟩ := hbelow n hn
      exact hgraph
  · intro _
    exact ⟨loaderFuel, snapshot.nodes, List.Subset.refl _, hload⟩

/-- A chain of composed agents in the graph of all stored pins, named by
the agents below the first. -/
def CompositionChain (tables : Tables) (root : ResolutionNode) (ns : List ResolutionNode) : Prop :=
  List.IsChain (fun a b => b ∈ composed (pinGraph tables) a) (root :: ns)

/-- No agent twice on the chain. -/
def NoRepeat (root : ResolutionNode) (ns : List ResolutionNode) : Prop :=
  ((root :: ns).map (·.resourceId)).Nodup

theorem legal_of_resolved {definition p ns}
    (h : resolveNode modelValidate candidates index fuel root visited depth = .ok definition)
    (hfollow : follow (composed index) root p = some ns) :
    Legal (·.resourceId) (ns.length + 1) visited root ns := by
  induction p generalizing fuel root visited depth definition ns with
  | nil =>
    obtain rfl : [] = ns := some.inj hfollow
    cases fuel with
    | zero => cases h
    | succ fuel =>
      rw [resolveNode_succ] at h
      obtain ⟨u, hguard, -⟩ := bind_ok h
      exact legal_nil_iff.mpr ⟨Nat.succ_pos _, (guardNode_eq_ok (raised_ok hguard)).2.1⟩
  | cons i p ih =>
    obtain ⟨child, below, hchild, hbelow, rfl⟩ := follow_cons_iff.mp hfollow
    cases fuel with
    | zero => cases h
    | succ fuel =>
      rw [resolveNode_succ] at h
      obtain ⟨u, hguard, h⟩ := bind_ok h
      obtain ⟨gathered, hgather, h⟩ := bind_ok h
      obtain ⟨composedAgents, hcomposed, -⟩ := bind_ok h
      rw [gather_composed (raised_ok hgather)] at hcomposed
      obtain ⟨entry, -, hentry⟩ := (mapM_results hcomposed).1 child (mem_of_getElem? hchild)
      obtain ⟨resolved, hresolved, -⟩ := bind_ok hentry
      exact legal_cons_iff.mpr ⟨(guardNode_eq_ok (raised_ok hguard)).2.1, ih hresolved hbelow⟩

/-- The agents a composition is made of, with nothing wrong in them but
their chains. -/
def SoundAgents (modelValidate : JsonValue → Option CapabilityRequirement)
    (candidates : List RuntimeCandidate) (tables : Tables) (root : ResolutionNode) : Prop :=
  root.kind = .agentDefinition ∧ ∀ ns, CompositionChain tables root ns →
    NodeOk modelValidate candidates (pinGraph tables) (lastOf root ns) ∧
      bindsHook (lastOf root ns) = false

/-- The agents the walk from this one may enter. -/
def OnChain (tables : Tables) (root n : ResolutionNode) : Prop :=
  ∃ ns, CompositionChain tables root ns ∧ lastOf root ns = n

theorem OnChain.composed {n child} (h : OnChain tables root n)
    (hchild : child ∈ composed (pinGraph tables) n) : OnChain tables root child := by
  obtain ⟨ns, hchain, rfl⟩ := h
  refine ⟨ns ++ [child], ?_, ?_⟩
  · show List.IsChain _ ((root :: ns) ++ [child])
    rw [isChain_append]
    refine ⟨hchain, .singleton _, ?_⟩
    intro a ha b hb
    obtain rfl : child = b := some.inj hb
    obtain rfl : lastOf root ns = a := by
      rw [List.getLast?_eq_some_getLast (cons_ne_nil root ns)] at ha
      exact some.inj ha
    exact hchild
  · unfold lastOf
    show ((root :: ns) ++ [child]).getLast _ = child
    exact getLast_append_singleton _

/-- Sound agents whose chains come back end in a cycle error, or in the
depth error of a chain that is too long before it comes back. -/
theorem resolveNode_of_cycle {ns} (hsound : SoundAgents modelValidate candidates tables root)
    (hchain : CompositionChain tables root ns) (hrepeat : ¬ NoRepeat root ns)
    (hfuel : maxCompositionDepth + 1 < fuel) :
    ∃ error, resolveNode modelValidate candidates (pinGraph tables) fuel root [] 0 =
        .error (.failure error) ∧ (error.errorCode = .compositionCycleDetected ∨
        (error.errorCode = .compositionDepthExceeded ∧
          ∃ ms, CompositionChain tables root ms ∧ NoRepeat root ms ∧
            maxCompositionDepth < ms.length)) := by
  obtain ⟨hkind, hagents⟩ := hsound
  obtain ⟨-, hfault⟩ := resolveNode_spec (OnChain tables root)
    (by
      rintro n ⟨ms, hms, rfl⟩
      exact (hagents ms hms).1)
    (fun n hn child hchild => hn.composed hchild)
    (Nat.add_zero (maxCompositionDepth + 1)) hfuel ⟨[], .singleton _, rfl⟩ hkind []
  cases hwalk : walk (pinGraph tables) (maxCompositionDepth + 1) [] root with
  | none =>
    obtain ⟨p, hp⟩ := isChain_iff_follow.mp hchain
    exact absurd (firstFault_eq_none_iff.mp hwalk p ns hp).1.nodup hrepeat
  | some fault =>
    obtain ⟨halt, hhalt, error, rfl, hcode⟩ := hfault fault hwalk
    refine ⟨error, hhalt, ?_⟩
    cases fault with
    | repeated => exact .inl hcode
    | tooDeep =>
      obtain ⟨p, ms, hp, hlegal, hlength⟩ := exists_long_of_tooDeep hwalk
      exact .inr ⟨hcode, ms, isChain_iff_follow.mpr ⟨p, hp⟩, hlegal.nodup, by omega⟩
    | bad =>
      obtain ⟨p, ms, hp, hbad, -⟩ := firstFault_eq_bad_iff.mp hwalk
      rw [(hagents ms (isChain_iff_follow.mpr ⟨p, hp⟩)).2] at hbad
      cases hbad

/-! ## Every reachable library -/

/-- What the core makes of a loaded snapshot. -/
structure Agrees (modelValidate : JsonValue → Option CapabilityRequirement) (tables : Tables)
    (snapshot : AgentResolutionSnapshot) : Prop where
  /-- Run for run, the outcome is the one of the graph of all pins. -/
  outcome : ∀ fuel, resolveAgent modelValidate fuel snapshot =
    resolveNode modelValidate snapshot.runtimeCandidates (pinGraph tables) fuel snapshot.agent [] 0
  /-- No node is missing, and none conflicts. -/
  blameless : ∀ error, Returns modelValidate snapshot (.error error) → ¬ error.BlamesSnapshot
  /-- A composition that comes back to an agent is never resolved. -/
  cyclic : ∀ ns, CompositionChain tables snapshot.agent ns → ¬ NoRepeat snapshot.agent ns →
    ∀ definition, ¬ Returns modelValidate snapshot (.ok definition)
  /-- Among sound agents it is a cycle error, unless a chain is too long
  before it comes back. -/
  detected : SoundAgents modelValidate snapshot.runtimeCandidates tables snapshot.agent →
    ∀ ns, CompositionChain tables snapshot.agent ns → ¬ NoRepeat snapshot.agent ns →
      ∃ error, Returns modelValidate snapshot (.error error) ∧
        (error.errorCode = .compositionCycleDetected ∨
          (error.errorCode = .compositionDepthExceeded ∧
            ∃ ms, CompositionChain tables snapshot.agent ms ∧ NoRepeat snapshot.agent ms ∧
              maxCompositionDepth < ms.length))

theorem agrees_of_loaded (h : tables.Sound) {snapshot} (hnode : IsNode tables snapshot.agent row)
    (hself : ¬ tables.Pins row row) {loaderFuel}
    (hload : loadSubgraph principal tables loaderFuel snapshot.agent [] 0 = .ok snapshot.nodes) :
    Agrees modelValidate tables snapshot := by
  have houtcome := fun fuel =>
    @resolveAgent_of_loaded modelValidate principal tables row h snapshot hnode hself loaderFuel
      hload fuel
  refine ⟨houtcome, ?_, ?_, ?_⟩
  · rintro error ⟨enough, hreturns⟩
    have hrun := (houtcome enough).symm.trans (hreturns enough (Nat.le_refl _))
    exact resolveNode_blameless (pinGraph_closed h) (isNode_closed h hnode) hrun
  · rintro ns hchain hrepeat definition ⟨enough, hreturns⟩
    have hrun := (houtcome enough).symm.trans (hreturns enough (Nat.le_refl _))
    obtain ⟨p, hp⟩ := isChain_iff_follow.mp hchain
    exact hrepeat (legal_of_resolved hrun hp).nodup
  intro hsound ns hchain hrepeat
  obtain ⟨outcome, enough, hreturns⟩ := @resolveAgent_returns modelValidate snapshot
  have hfuel : maxCompositionDepth + 1 < max enough (maxCompositionDepth + 2) :=
    Nat.lt_of_lt_of_le (Nat.lt_succ_self _) (Nat.le_max_right ..)
  obtain ⟨error, herror, hcode⟩ := resolveNode_of_cycle hsound hchain hrepeat hfuel
  have hraised : raised outcome = .error (.failure error) :=
    (hreturns _ (Nat.le_max_left ..)).symm.trans ((houtcome _).trans herror)
  obtain ⟨error', heq, rfl⟩ := raised_error hraised
  obtain rfl := Halt.failure.inj heq
  exact ⟨error, ⟨enough, hreturns⟩, hcode⟩

variable {locks : List ProjectLock}
  {loadCandidates : List (LibraryKind × String) → Except HttpError (List RuntimeCandidate)}
  {kind : LibraryKind} {stableKey : String} {projectId : Option Uuid}

theorem resolveDefinition_ok {resolved}
    (h : resolveDefinition tables locks principal kind stableKey projectId = .ok resolved) :
    ∃ row ∈ tables.versions, row.pin = (resolved.resourceId, resolved.version) := by
  have hinner : resolveInner tables locks principal kind stableKey projectId = .ok resolved := by
    unfold resolveDefinition at h
    cases projectId with
    | none => exact h
    | some id =>
      obtain ⟨u, -, hinner⟩ := bind_ok h
      exact hinner
  unfold resolveInner at hinner
  split at hinner
  · cases hinner
  dsimp only at hinner
  split at hinner
  · cases hinner
  split at hinner
  · cases hinner
  rename_i target htarget
  split at hinner
  · cases hinner
    exact ⟨target, mem_of_versionRow htarget⟩
  · cases hinner

def Refused (tables : Tables) (locks : List ProjectLock)
    (loadCandidates : List (LibraryKind × String) → Except HttpError (List RuntimeCandidate))
    (principal : Principal) (kind : LibraryKind) (stableKey : String) (projectId : Option Uuid)
    (e : HttpError) : Prop :=
  resolveDefinition tables locks principal kind stableKey projectId = .error e ∨
    (e = definitionNotFound ∧ ∃ resolved row,
      resolveDefinition tables locks principal kind stableKey projectId = .ok resolved ∧
      row.pin = (resolved.resourceId, resolved.version) ∧ ReachesHidden principal tables row) ∨
    ∃ keys, loadCandidates keys = .error e

/-- The root of a resolved definition is the node of its version, or
something hidden is in the way. -/
theorem loadRoot_cases (h : tables.Sound) {resolved}
    (hresolve : resolveDefinition tables locks principal kind stableKey projectId = .ok resolved) :
    ∃ row, row.pin = (resolved.resourceId, resolved.version) ∧
      (∀ e, loadNode principal tables resolved.resourceId resolved.version
        resolved.versionOrigin = .error e →
        e = definitionNotFound ∧ ReachesHidden principal tables row) ∧
      ∀ root, loadNode principal tables resolved.resourceId resolved.version
        resolved.versionOrigin = .ok root → IsNode tables root row := by
  obtain ⟨row, hmem, hpin⟩ := resolveDefinition_ok hresolve
  obtain ⟨hid, hversion⟩ := Prod.mk.inj hpin
  refine ⟨row, hpin, ?_, ?_⟩
  · intro e herror
    rw [← hid, ← hversion] at herror
    exact loadNode_error h hmem herror
  · intro root hroot
    obtain ⟨row', resource, hpin', hmem', hresource, hnode⟩ := loadNode_ok hroot
    obtain rfl : row' = row := inj_on_of_nodup_map h.pins hmem' hmem (hpin'.trans hpin.symm)
    exact ⟨hmem', resource, _, hresource, hnode⟩

/-- A load that is given fuel for the deepest composition is refused, or
builds a snapshot of the root and what is below it. -/
theorem loadSnapshot_cases (h : tables.Sound) (hfuel : maxCompositionDepth + 2 ≤ fuel) :
    (∃ e, loadSnapshot tables locks loadCandidates principal kind stableKey projectId fuel =
        .error (.refused e) ∧
      Refused tables locks loadCandidates principal kind stableKey projectId e) ∨ ∃ snapshot row,
      loadSnapshot tables locks loadCandidates principal kind stableKey projectId fuel =
        .ok snapshot ∧ IsNode tables snapshot.agent row ∧
      loadSubgraph principal tables fuel snapshot.agent [] 0 = .ok snapshot.nodes := by
  cases hload :
    loadSnapshot tables locks loadCandidates principal kind stableKey projectId fuel with
  | error halt =>
    left
    rcases bind_error hload with hresolve | ⟨resolved, hresolve, hload⟩
    · obtain ⟨e, rfl, herror⟩ := refusing_error hresolve
      exact ⟨e, rfl, .inl herror⟩
    obtain ⟨row, hpin, hmasked, hisNode⟩ := loadRoot_cases h (refusing_ok hresolve)
    have hrefused : ∀ e, e = definitionNotFound ∧ ReachesHidden principal tables row →
        Refused tables locks loadCandidates principal kind stableKey projectId e :=
      fun e hhidden =>
        .inr (.inl ⟨hhidden.1, resolved, row, refusing_ok hresolve, hpin, hhidden.2⟩)
    rcases bind_error hload with hroot | ⟨root, hroot, hload⟩
    · obtain ⟨e, rfl, herror⟩ := refusing_error hroot
      exact ⟨e, rfl, hrefused e (hmasked e herror)⟩
    rcases bind_error hload with hnodes | ⟨nodes, hnodes, hload⟩
    · cases halt with
      | running => exact absurd hnodes (loadSubgraph_stops (by omega) (by omega))
      | refused e =>
        have hnode := hisNode root (refusing_ok hroot)
        exact ⟨e, rfl, hrefused e (loadSubgraph_refused h hnode hnodes)⟩
    rcases bind_error hload with hcandidates | ⟨found, -, hload⟩
    · obtain ⟨e, rfl, herror⟩ := refusing_error hcandidates
      exact ⟨e, rfl, .inr (.inr ⟨_, herror⟩)⟩
    · cases hload
  | ok snapshot =>
    right
    obtain ⟨resolved, hresolve, hload⟩ := bind_ok hload
    obtain ⟨row, -, -, hisNode⟩ := loadRoot_cases h (refusing_ok hresolve)
    obtain ⟨root, hroot, hload⟩ := bind_ok hload
    obtain ⟨nodes, hnodes, hload⟩ := bind_ok hload
    obtain ⟨found, -, hload⟩ := bind_ok hload
    cases hload
    exact ⟨_, row, rfl, hisNode root (refusing_ok hroot), hnodes⟩

theorem answered_ne_running {result} : answered (raised result) ≠ .error .running := by
  cases result with
  | error e =>
    show Except.error (mapFailure e) ≠ _
    unfold mapFailure
    split <;> simp
  | ok definition => simp [raised, Except.mapError, answered]

/-- In every library that the services reach, `resolve_full` returns. It is refused while it loads,
or builds a snapshot; and unless the version at the root pins itself, the core agrees on that
snapshot with the graph of all stored pins. -/
theorem loader_agrees (env : Surroundings)
    (modelValidate : JsonValue → Option CapabilityRequirement) {acts : List Act} {s : State}
    (h : Run (step env) Free State.initial acts s) (locks : List ProjectLock)
    (loadCandidates : List (LibraryKind × String) → Except HttpError (List RuntimeCandidate))
    (principal : Principal) (kind : LibraryKind) (stableKey : String) (projectId : Option Uuid)
    {fuel : Nat} (hfuel : maxCompositionDepth + 2 ≤ fuel) :
    resolveFull modelValidate s.tables locks loadCandidates principal kind stableKey projectId
      fuel ≠ .error .running ∧
    ((∃ e, resolveFull modelValidate s.tables locks loadCandidates principal kind stableKey
          projectId fuel = .error (.refused e) ∧
        Refused s.tables locks loadCandidates principal kind stableKey projectId e) ∨
      ∃ snapshot row,
        loadSnapshot s.tables locks loadCandidates principal kind stableKey projectId fuel =
          .ok snapshot ∧
        resolveFull modelValidate s.tables locks loadCandidates principal kind stableKey projectId
          fuel = answered (resolveAgent modelValidate fuel snapshot) ∧
        IsNode s.tables snapshot.agent row ∧
        (¬ s.tables.Pins row row → Agrees modelValidate s.tables snapshot)) := by
  have hsound := links_go_back h
  rcases loadSnapshot_cases hsound hfuel with
    ⟨e, hload, hrefused⟩ | ⟨snapshot, row, hload, hnode, hbelow⟩
  · have hfull : resolveFull modelValidate s.tables locks loadCandidates principal kind stableKey
        projectId fuel = .error (.refused e) := by
      unfold resolveFull
      rw [hload]
    rw [hfull]
    exact ⟨by simp, .inl ⟨e, rfl, hrefused⟩⟩
  · have hfull : resolveFull modelValidate s.tables locks loadCandidates principal kind stableKey
        projectId fuel = answered (resolveAgent modelValidate fuel snapshot) := by
      unfold resolveFull
      rw [hload]
    refine ⟨?_, .inr ⟨snapshot, row, hload, hfull, hnode,
      fun hself => agrees_of_loaded hsound hnode hself hbelow⟩⟩
    rw [hfull]
    obtain ⟨outcome, houtcome⟩ := @resolveAgent_within modelValidate snapshot
    rw [houtcome fuel hfuel]
    exact answered_ne_running

/-! ## Three libraries -/

/-- `resolve_full` for an admin, who has no runtime candidates. -/
def fullAnswer (s : State) (stableKey : String) : Except FullHalt ResolvedAgentDefinition :=
  resolveFull validateEmpty s.tables [] (fun _ => .ok []) admin .agentDefinition stableKey none
    (maxCompositionDepth + 2)

/-- The load of `fullAnswer`. -/
def fullLoad (s : State) (stableKey : String) : Except LoadHalt AgentResolutionSnapshot :=
  loadSnapshot s.tables [] (fun _ => .ok []) admin .agentDefinition stableKey none
    (maxCompositionDepth + 2)

/-- `detail["error_code"]` of a `422`. -/
def failureCode : Except FullHalt ResolvedAgentDefinition → Option String
  | .error (.failed _ errorCode _) => some errorCode
  | .error (.refused _) | .error .running | .ok _ => none

def activating (c : Nat) (resource : Uuid) (version expected : Int) : List Act :=
  [.call c (.activateResourceVersion admin resource version expected), .check c, .write c]

/-- `composingRun`, with the composing version made the active one. -/
def activeRun : List Act := composingRun ++ activating 2 ⟨"r1"⟩ 1 1

theorem not_pins_of_noLoops (h : tables.NoLoops) : ¬ tables.Pins row row := by
  rintro ⟨hrow, -, link, hlink, hfrom, htarget⟩
  exact h link hlink row hrow hfrom.symm htarget.symm

theorem loader_agrees_active : ∃ s snapshot,
    Run (step plainStudio) Free State.initial activeRun s ∧ fullLoad s "lead" = .ok snapshot ∧
      Agrees validateEmpty s.tables snapshot := by
  have h : (execWithin (step plainStudio) Free State.initial activeRun).any (fun s =>
      decide ((fullAnswer s "lead").isOk = true ∧ ∀ link ∈ s.tables.links,
        ∀ row ∈ s.tables.versions, row.id = link.fromVersionId → row.pin ≠ link.target)) = true := by
    decide +kernel
  obtain ⟨s, hs, hfacts⟩ := Run.of_any h
  obtain ⟨hok, hloops⟩ := of_decide_eq_true hfacts
  have hrun := hs
  obtain ⟨-, hrefused | ⟨snapshot, row, hsnapshot, -, -, hagrees⟩⟩ :=
    loader_agrees plainStudio validateEmpty hrun [] (fun _ => .ok []) admin .agentDefinition "lead"
      none (Nat.le_refl (maxCompositionDepth + 2))
  · obtain ⟨e, hfull, -⟩ := hrefused
    rw [show fullAnswer s "lead" = .error (.refused e) from hfull] at hok
    cases hok
  · exact ⟨s, snapshot, hrun, hsnapshot, hagrees (not_pins_of_noLoops hloops)⟩

/-- The creation of an agent definition by an admin. -/
def creating (c : Nat) (stableKey : String) (resource version : Uuid) (pins : List DependencyPin) :
    List Act :=
  [.call c (newAgent stableKey pins), .insertResource c resource, .insertVersion c version] ++
    pins.flatMap (fun _ => [.resolvePin c, .findVersion c]) ++ [.commit c]

/-- The pin of version 1 of an agent definition. -/
def agentPin (stableKey : String) : DependencyPin :=
  { kind := .agentDefinition, stableKey := stableKey, version := 1 }

/-- Ten agents in a ring: each composes the next one, and version 2 of
the first closes the ring. -/
def ringRun : List Act :=
  creating 0 "a0" ⟨"a0"⟩ ⟨"u0"⟩ [] ++
  creating 9 "a9" ⟨"a9"⟩ ⟨"u9"⟩ [agentPin "a0"] ++
  creating 8 "a8" ⟨"a8"⟩ ⟨"u8"⟩ [agentPin "a9"] ++
  creating 7 "a7" ⟨"a7"⟩ ⟨"u7"⟩ [agentPin "a8"] ++
  creating 6 "a6" ⟨"a6"⟩ ⟨"u6"⟩ [agentPin "a7"] ++
  creating 5 "a5" ⟨"a5"⟩ ⟨"u5"⟩ [agentPin "a6"] ++
  creating 4 "a4" ⟨"a4"⟩ ⟨"u4"⟩ [agentPin "a5"] ++
  creating 3 "a3" ⟨"a3"⟩ ⟨"u3"⟩ [agentPin "a4"] ++
  creating 2 "a2" ⟨"a2"⟩ ⟨"u2"⟩ [agentPin "a3"] ++
  creating 1 "a1" ⟨"a1"⟩ ⟨"u1"⟩ [agentPin "a2"] ++
  [.call 10 (.createResourceVersion admin ⟨"a0"⟩
      { title := "a0", content := [], dependencies := [agentPin "a1"] }),
    .lock 10, .insertVersion 10 ⟨"w0"⟩, .resolvePin 10, .findVersion 10, .commit 10] ++
  activating 11 ⟨"a0"⟩ 2 2

/-- The agents around the ring, from the snapshot's. -/
def ringChain (s : State) (snapshot : AgentResolutionSnapshot) : Option (List ResolutionNode) :=
  follow (composed (pinGraph s.tables)) snapshot.agent (List.replicate 10 0)

/-- The chain around the ring comes back to its first agent. -/
def ringCloses (s : State) : Bool :=
  (fullLoad s "a0").toOption.any fun snapshot =>
    (ringChain s snapshot).any fun ns =>
      !decide ((snapshot.agent :: ns).map (·.resourceId)).Nodup

/-- `selfPinningRun`, with the version that pins itself made the active
one. -/
def selfActiveRun : List Act := selfPinningRun ++ activating 1 ⟨"r0"⟩ 1 1

theorem ring_too_deep : ∃ s snapshot ns, Run (step plainStudio) Free State.initial ringRun s ∧
    fullLoad s "a0" = .ok snapshot ∧ CompositionChain s.tables snapshot.agent ns ∧
    ¬ NoRepeat snapshot.agent ns ∧
    failureCode (fullAnswer s "a0") = some "composition_depth_exceeded" := by
  have h : (execWithin (step plainStudio) Free State.initial ringRun).any (fun s =>
      decide (ringCloses s = true ∧
        failureCode (fullAnswer s "a0") = some "composition_depth_exceeded")) = true := by
    decide +kernel
  obtain ⟨s, hs, hfacts⟩ := Run.of_any h
  obtain ⟨hcloses, hcode⟩ := of_decide_eq_true hfacts
  obtain ⟨snapshot, hload, hcloses⟩ := (Option.any_eq_true _ _).mp hcloses
  obtain ⟨ns, hns, hrepeat⟩ := (Option.any_eq_true _ _).mp hcloses
  have hfull : fullLoad s "a0" = .ok snapshot := by
    cases hcase : fullLoad s "a0" with
    | error halt =>
      rw [hcase] at hload
      cases hload
    | ok loaded =>
      rw [hcase] at hload
      rw [some.inj hload]
  have hno : ¬ ((snapshot.agent :: ns).map (·.resourceId)).Nodup :=
    of_decide_eq_false ((Bool.not_eq_true' _).mp hrepeat)
  exact ⟨s, snapshot, ns, hs, hfull, isChain_iff_follow.mpr ⟨_, hns⟩, hno, hcode⟩

theorem self_pin_conflicts : ∃ s, Run (step plainStudio) Free State.initial selfActiveRun s ∧
    s.tables.Pins selfPinned selfPinned ∧
    failureCode (fullAnswer s "lead") = some "invalid_resolution_input" := by
  have h : (execWithin (step plainStudio) Free State.initial selfActiveRun).any (fun s =>
      decide (s.tables.versions = [selfPinned] ∧ s.tables.links = [selfLink] ∧
        failureCode (fullAnswer s "lead") = some "invalid_resolution_input")) = true := by
    decide +kernel
  obtain ⟨s, hs, hfacts⟩ := Run.of_any h
  obtain ⟨hversions, hlinks, hcode⟩ := of_decide_eq_true hfacts
  have hmem : selfPinned ∈ s.tables.versions := by
    rw [hversions]
    exact mem_singleton_self _
  have hlink : selfLink ∈ s.tables.links := by
    rw [hlinks]
    exact mem_singleton_self _
  exact ⟨s, hs, ⟨hmem, hmem, selfLink, hlink, rfl, rfl⟩, hcode⟩

/-- Neither cycle is reported as one. -/
theorem cycles_not_detected :
    (∃ s snapshot ns, Run (step plainStudio) Free State.initial ringRun s ∧
      fullLoad s "a0" = .ok snapshot ∧ CompositionChain s.tables snapshot.agent ns ∧
      ¬ NoRepeat snapshot.agent ns ∧
      failureCode (fullAnswer s "a0") = some "composition_depth_exceeded") ∧
    ∃ s, Run (step plainStudio) Free State.initial selfActiveRun s ∧
      s.tables.Pins selfPinned selfPinned ∧
      failureCode (fullAnswer s "lead") = some "invalid_resolution_input" :=
  ⟨ring_too_deep, self_pin_conflicts⟩

end StudioOS.Resolution
