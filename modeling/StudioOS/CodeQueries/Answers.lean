import StudioOS.Base
import StudioOS.CodeQueries.Tables

/-!
# Code queries — Answers

What a query ends with. The index of a workspace stays while `configure` drops
repositories and reads the store, and a query reads the table beside it:
`_source` asks for the configured provider and for a snapshot of the table.
-/

namespace StudioOS.CodeQueries

open List Function Runs

section Answer

variable (env : Env)

/-! ## When the table goes with the index -/

/-- `_source` has a provider and a snapshot to name. -/
def Workspace.Sourced (ws : Workspace env.owner) : Prop :=
  ws.providerOf env ≠ none ∧ ws.snapshots ≠ []

/-- The page that the request asks for. -/
def CodeGraphIndex.Roomy (index : CodeGraphIndex) (request : GraphPageRequest) : Prop :=
  ∀ offset ∈ decode request.cursor (index.pageStamp env.texts request.nodeKinds),
    ¬ index.Cramped request.limit ((index.pool request.nodeKinds).drop offset)

/-- The index can answer the query beside the table as it is. -/
def Workspace.Clear (ws : Workspace env.owner) (query : Query) : Prop :=
  ∀ index ∈ ws.index,
    match query with
    | .symbols _ => True
    | .page request => ws.Sourced env ∧ index.OneSource ∧ index.Roomy env request
    | .expand _ => ws.Sourced env ∧ index.OneSource

def Outcome.answer? {α : Type} : Outcome α → Option α
  | .answered answer => some answer
  | _ => none

/-- Every query that gets to an index finds it so. -/
def Clears (s : Service env.owner) : Act env.owner → Prop
  | .query query taken probe =>
    ∀ found ∈ (s.servable env query.workspaceId taken probe).answer?, found.1.Clear env query
  | _ => True

instance (ws : Workspace env.owner) : Decidable (ws.Sourced env) :=
  inferInstanceAs (Decidable (_ ∧ _))

instance (index : CodeGraphIndex) (request : GraphPageRequest) :
    Decidable (index.Roomy env request) :=
  inferInstanceAs (Decidable (∀ offset ∈ decode _ _, ¬ _))

instance (ws : Workspace env.owner) (query : Query) : Decidable (ws.Clear env query) :=
  match query with
  | .symbols _ => .isTrue fun _ _ => trivial
  | .page _ => inferInstanceAs (Decidable (∀ index ∈ ws.index, _ ∧ _ ∧ _))
  | .expand _ => inferInstanceAs (Decidable (∀ index ∈ ws.index, _ ∧ _))

instance (s : Service env.owner) (act : Act env.owner) : Decidable (Clears env s act) :=
  match act with
  | .query query taken probe =>
    inferInstanceAs (Decidable (∀ found ∈
      (s.servable env query.workspaceId taken probe).answer?, found.1.Clear env query))
  | .create _ => .isTrue trivial
  | .workspace _ _ => .isTrue trivial
  | .forget _ => .isTrue trivial

/-- What a query may return: nodes of these snapshots. -/
def Result.From {owner : Text → Text} (seen : List (RepoSnapshot owner)) : Result → Prop
  | .symbols result => ∀ ref ∈ result.symbols, ∃ snapshot ∈ seen, ∃ node ∈ snapshot.nodes,
      ref.Of node
  | .graph page => ∀ node ∈ page.nodes, ∃ snapshot ∈ seen, node ∈ snapshot.nodes

/-- Every query that has ended was answered from the snapshots of its
workspace, or refused. -/
def Service.Served (s : Service env.owner) : Prop :=
  ∀ ended ∈ s.ended, ended.outcome.Served (Result.From (s.seen ended.query.workspaceId))

end Answer

section Answers

variable {env : Env}

theorem Outcome.Served.bind {α β : Type} {P : α → Prop} {Q : β → Prop} {outcome : Outcome α}
    {f : α → Outcome β} (h : outcome.Served P) (hf : ∀ answer, P answer → (f answer).Served Q) :
    (outcome.bind f).Served Q := by
  cases outcome with
  | answered answer => exact hf answer h
  | refused => trivial
  | raised error => exact h.elim

/-- The query ends in an exception of another kind. -/
def Outcome.crashed {α : Type} : Outcome α → Bool
  | .raised _ => true
  | _ => false

theorem Outcome.Served.not_crashed {α : Type} {P : α → Prop} {outcome : Outcome α}
    (h : outcome.Served P) : ¬ outcome.crashed = true := by
  cases outcome with
  | answered | refused => simp [Outcome.crashed]
  | raised error => exact h.elim

variable {owner : Text → Text} {s t : Service env.owner} {workspaceId : WorkspaceId}

theorem Repo.phase_ready {repo : Repo owner} (h : repo.phase = .ready) : repo.snapshot ≠ none := by
  intro hnone
  unfold Repo.phase at h
  simp only [hnone, Option.isNone_none, if_true] at h
  split at h
  · cases h
  · split at h
    · cases h
    · split at h
      · cases h
      · split at h <;> cases h

theorem Workspace.composeIndex_ne_none (ws : Workspace owner) : ws.composeIndex ≠ none := by
  unfold Workspace.composeIndex
  dsimp only
  split
  · simp
  rename_i hrepos
  split
  · simp
  rename_i hmissing
  split
  · simp
  rename_i hcorrupt
  split
  · simp
  rename_i hfailed
  split
  · simp
  rename_i hindexing
  split
  · simp
  rename_i habsent
  split
  · simp
  rename_i hstale
  -- every repository is ready
  obtain ⟨repo, hrepo⟩ := exists_mem_of_ne_nil _ hrepos
  have hphase : repo.phase ∈ ws.repos.map Repo.phase := mem_map_of_mem hrepo
  have hready : repo.phase = .ready := by
    cases heq : repo.phase with
    | ready => rfl
    | missing => exact absurd (heq ▸ hphase) hmissing
    | corrupt => exact absurd (heq ▸ hphase) hcorrupt
    | failed => exact absurd (heq ▸ hphase) hfailed
    | indexing => exact absurd (heq ▸ hphase) hindexing
    | absent => exact absurd (heq ▸ hphase) habsent
    | stale => exact absurd (heq ▸ hphase) hstale
  obtain ⟨snapshot, hsnapshot⟩ := Option.ne_none_iff_exists'.mp (Repo.phase_ready hready)
  have hmem : snapshot ∈ ws.snapshots := mem_filterMap.mpr ⟨repo, hrepo, hsnapshot⟩
  rw [if_neg (ne_nil_of_mem hmem)]
  simp

theorem Workspace.compose_ne_none (ws : Workspace env.owner) (probe) :
    ws.compose env probe ≠ none := by
  unfold Workspace.compose
  split
  · simp
  split
  · simp
  split
  · simp
  split
  · simp
  · simp
  · simp
  · simp
  · exact ws.composeIndex_ne_none

theorem Service.servable_served (s : Service env.owner) (workspaceId taken probe) :
    (s.servable env workspaceId taken probe).Served fun found =>
      ∃ obj, s.current workspaceId = some obj ∧ found.1 = s.objects obj := by
  unfold Service.servable
  split
  · trivial
  rename_i obj
  split
  · rename_i hnone
    exact (Workspace.compose_ne_none _ _ hnone).elim
  split
  · trivial
  · rename_i obj' hcurrent
    split
    · exact ⟨obj', hcurrent, rfl⟩
    · trivial

theorem Workspace.source_served {ws : Workspace env.owner} (h : ws.Sourced env)
    (index : CodeGraphIndex) :
    (ws.source env index).Served fun source => source.sourceId = index.sourceId := by
  obtain ⟨hprovider, hsnapshots⟩ := h
  unfold Workspace.source
  split
  · exact (hprovider ‹_›).elim
  · split
    · rename_i hnil
      exact (hsnapshots (map_eq_nil_iff.mp hnil)).elim
    · rfl

variable {seen : List (RepoSnapshot env.owner)} {ws : Workspace env.owner}

theorem Workspace.graphPage_served (hindexed : ws.Indexed seen) (request)
    (hclear : ws.Clear env (.page request)) :
    (ws.graphPage env request).Served (Result.From seen) := by
  unfold Workspace.graphPage
  cases hindex : ws.index with
  | none => trivial
  | some index =>
    obtain ⟨hcoherent, hnodes⟩ := hindexed index hindex
    obtain ⟨hsourced, hone, hroomy⟩ := hclear index hindex
    refine (Workspace.source_served hsourced index).bind fun source hsource => ?_
    refine (page_served hcoherent hone hsource request.limit_le hroomy).bind fun page hpage => ?_
    exact fun node hnode => hnodes node (hpage node hnode)

theorem Workspace.graphExpand_served (hindexed : ws.Indexed seen) (request)
    (hclear : ws.Clear env (.expand request)) :
    (ws.graphExpand env request).Served (Result.From seen) := by
  unfold Workspace.graphExpand
  cases hindex : ws.index with
  | none => trivial
  | some index =>
    obtain ⟨hcoherent, hnodes⟩ := hindexed index hindex
    obtain ⟨hsourced, hone⟩ := hclear index hindex
    refine (Workspace.source_served hsourced index).bind fun source hsource => ?_
    refine (expand_served hcoherent hone hsource request.node.nodeId request.direction
      request.relations request.limit request.cursor).bind fun page hpage => ?_
    exact fun node hnode => hnodes node (hpage node hnode)

theorem CodeSymbolResult.make_served {result : CodeSymbolResult} {P : Result → Prop}
    (hlength : result.symbols.length ≤ maxSearchResults)
    (hcomplete : result.complete = true → result.indexState = .ready)
    (h : P (.symbols result)) : result.make.Served P := by
  have hvalid : result.valid = true := by
    simp only [CodeSymbolResult.valid, Bool.and_eq_true, decide_eq_true_eq, hlength, true_and,
      Bool.not_eq_true', Bool.and_eq_false_iff]
    by_cases hready : result.indexState = .ready
    · simp [hready]
    · right
      simpa using fun htrue => hready (hcomplete htrue)
  rw [CodeSymbolResult.make, if_pos hvalid]
  exact h

theorem Workspace.searchSymbols_served (hindexed : ws.Indexed seen)
    (state query) : (ws.searchSymbols env state query).Served (Result.From seen) := by
  unfold Workspace.searchSymbols
  cases hindex : ws.index with
  | none =>
    refine CodeSymbolResult.make_served (Nat.zero_le _) (by simp) ?_
    intro ref href
    cases href
  | some index =>
    obtain ⟨hcoherent, hnodes⟩ := hindexed index hindex
    refine (search_served hcoherent query.name query.kinds query.limit query.cursor).bind
      fun found hfound => ?_
    refine CodeSymbolResult.make_served (hfound.1.trans query.limit_le) (by simp) ?_
    intro ref href
    obtain ⟨node, hnode, hof⟩ := hfound.2 ref href
    obtain ⟨snapshot, hsnapshot, hin⟩ := hnodes node hnode
    exact ⟨snapshot, hsnapshot, node, hin, hof⟩

theorem Workspace.answer_served (hindexed : ws.Indexed seen) (state) (query)
    (hclear : ws.Clear env query) :
    (ws.answer env state query).Served (Result.From seen) := by
  cases query with
  | symbols query => exact ws.searchSymbols_served hindexed state query
  | page request => exact ws.graphPage_served hindexed request hclear
  | expand request => exact ws.graphExpand_served hindexed request hclear

/-! ## Whole runs -/

structure Service.Inv (s : Service env.owner) : Prop where
  shaped : ∀ obj, (s.objects obj).Shaped
  indexed : ∀ obj, (s.objects obj).Indexed (s.seen (s.objects obj).workspaceId)
  current : ∀ workspaceId obj, s.current workspaceId = some obj →
    obj < s.made ∧ (s.objects obj).workspaceId = workspaceId
  served : s.Served env

theorem Workspace.new_shaped (workspaceId) :
    (Workspace.new workspaceId : Workspace owner).Shaped where
  names := nodup_nil
  named := by simp [Workspace.new]
  fresh := by simp [Workspace.new]

theorem Workspace.new_indexed (workspaceId : WorkspaceId)
    (seen : List (RepoSnapshot owner)) : (Workspace.new workspaceId).Indexed seen := by
  intro index hindex
  cases hindex

theorem Service.start_inv : (Service.start : Service env.owner).Inv where
  shaped := fun _ => Workspace.new_shaped 0
  indexed := fun _ => Workspace.new_indexed 0 _
  current := by simp [Service.start]
  served := by simp [Service.Served, Service.start]

theorem Result.From.mono {seen more : List (RepoSnapshot owner)}
    (hsub : seen ⊆ more) {result : Result} (h : result.From seen) : result.From more := by
  cases result with
  | symbols result =>
    intro ref href
    obtain ⟨snapshot, hsnapshot, hnode⟩ := h ref href
    exact ⟨snapshot, hsub hsnapshot, hnode⟩
  | graph page =>
    intro node hnode
    obtain ⟨snapshot, hsnapshot, hin⟩ := h node hnode
    exact ⟨snapshot, hsub hsnapshot, hin⟩

theorem Service.Inv.create (h : s.Inv)
    (hstep : step env s (.create workspaceId) = some t) : t.Inv := by
  simp only [step] at hstep
  split at hstep
  · cases hstep
    refine ⟨?_, ?_, ?_, h.served⟩
    · intro obj
      by_cases heq : obj = s.made
      · simp only [heq, update_self]
        exact Workspace.new_shaped workspaceId
      · simp only [update_of_ne heq]
        exact h.shaped obj
    · intro obj
      by_cases heq : obj = s.made
      · simp only [heq, update_self]
        exact Workspace.new_indexed workspaceId _
      · simp only [update_of_ne heq]
        exact h.indexed obj
    · intro other obj hcurrent
      rcases update_some hcurrent with ⟨rfl, rfl⟩ | ⟨heq, hcurrent⟩
      · simp [Workspace.new]
      · obtain ⟨hlt, hid⟩ := h.current other obj hcurrent
        refine ⟨Nat.lt_succ_of_lt hlt, ?_⟩
        simp only [update_of_ne (Nat.ne_of_lt hlt)]
        exact hid
  · cases hstep

theorem Service.Inv.workspace {obj act} (h : s.Inv)
    (hstep : step env s (.workspace obj act) = some t) : t.Inv := by
  simp only [step] at hstep
  split at hstep
  · obtain ⟨ws, hact, rfl⟩ := Option.map_eq_some_iff.mp hstep
    have hid := Workspace.act_workspaceId hact
    have hshaped := (h.shaped obj).act hact
    have hgrow : ∀ workspaceId, s.seen workspaceId ⊆
        Function.update s.seen ws.workspaceId (ws.snapshots ++ s.seen ws.workspaceId)
          workspaceId := by
      intro workspaceId
      by_cases heq : workspaceId = ws.workspaceId
      · rw [heq, update_self]
        exact subset_append_right _ _
      · rw [update_of_ne heq]
        exact fun _ h => h
    refine ⟨?_, ?_, ?_, ?_⟩
    · intro other
      by_cases heq : other = obj
      · simp only [heq, update_self]
        exact hshaped
      · simp only [update_of_ne heq]
        exact h.shaped other
    · intro other
      by_cases heq : other = obj
      · simp only [heq, update_self]
        rw [hid]
        exact (h.indexed obj).act hshaped hact
      · simp only [update_of_ne heq]
        exact (h.indexed other).mono (hgrow _)
    · intro workspaceId other hcurrent
      obtain ⟨hlt, hother⟩ := h.current workspaceId other hcurrent
      refine ⟨hlt, ?_⟩
      by_cases heq : other = obj
      · subst heq
        simp only [update_self]
        rw [hid]
        exact hother
      · simp only [update_of_ne heq]
        exact hother
    · intro ended hended
      exact (h.served ended hended).imp fun _ hfrom => hfrom.mono (hgrow _)
  · cases hstep

theorem Service.Inv.forget (h : s.Inv)
    (hstep : step env s (.forget workspaceId) = some t) : t.Inv := by
  simp only [step] at hstep
  split at hstep
  · cases hstep
    exact h
  rename_i obj hcurrent
  cases hstep
  refine ⟨?_, ?_, ?_, h.served⟩
  · intro other
    by_cases heq : other = obj
    · simp only [heq, update_self]
      exact ⟨nodup_nil, by simp, (h.shaped obj).fresh⟩
    · simp only [update_of_ne heq]
      exact h.shaped other
  · intro other
    by_cases heq : other = obj
    · simp only [heq, update_self]
      exact h.indexed obj
    · simp only [update_of_ne heq]
      exact h.indexed other
  · intro other obj' hother
    by_cases heq : other = workspaceId
    · subst heq
      simp only [update_self] at hother
      cases hother
    simp only [update_of_ne heq] at hother
    obtain ⟨hlt, hid⟩ := h.current other obj' hother
    refine ⟨hlt, ?_⟩
    by_cases hobj : obj' = obj
    · subst hobj
      simp only [update_self]
      exact hid
    · simp only [update_of_ne hobj]
      exact hid

theorem Service.Inv.query {query taken probe} (h : s.Inv)
    (hclear : Clears env s (.query query taken probe))
    (hstep : step env s (.query query taken probe) = some t) : t.Inv := by
  simp only [step] at hstep
  split at hstep
  · cases hstep
    refine ⟨h.shaped, h.indexed, h.current, ?_⟩
    intro ended hended
    rcases mem_cons.mp hended with rfl | hended
    · show (s.answer env query taken probe).Served _
      unfold Service.answer
      simp only [Clears] at hclear
      have hservable := s.servable_served query.workspaceId taken probe
      cases hfound : s.servable env query.workspaceId taken probe with
      | refused => trivial
      | raised error =>
        rw [hfound] at hservable
        exact hservable.elim
      | answered found =>
        rw [hfound] at hservable hclear
        have hfoundClear : found.1.Clear env query := hclear found rfl
        obtain ⟨obj, hcurrent, hobj⟩ := hservable
        have hindexed := h.indexed obj
        rw [(h.current _ obj hcurrent).2, ← hobj] at hindexed
        exact found.1.answer_served hindexed found.2 query hfoundClear
    · exact h.served ended hended
  · cases hstep

theorem Service.Inv.step {act} (h : s.Inv) (hclear : Clears env s act)
    (hstep : step env s act = some t) : t.Inv := by
  cases act with
  | create workspaceId => exact h.create hstep
  | workspace obj act => exact h.workspace hstep
  | forget workspaceId => exact h.forget hstep
  | query query taken probe => exact h.query hclear hstep

/-- In a run whose queries find their indexes clear, every query is answered
from the snapshots of its workspace, or refused. -/
theorem queries_served {actions : List (Act env.owner)} {s : Service env.owner}
    (h : Run (step env) (Clears env) .start actions s) : s.Served env :=
  (h.invariant (fun hinv => Service.Inv.step hinv) Service.start_inv).served

end Answers

section Runs

/-- One provider; the ids of the first repository. -/
def apiEnv : Env :=
  { texts := { stamp := fun _ => "5f".toList, lower := id }
    providers := ["graphify".toList]
    fingerprint := fun _ _ => []
    owner := fun _ => "api".toList }

def apiNode : GraphNode :=
  { nodeId := "n-1".toList, kind := .file, label := "main.py".toList,
    uri := some "studio-local://code/api/main.py".toList, sourceId := "code.graphify".toList }

def apiSnapshot : RepoSnapshot apiEnv.owner where
  repoName := "api".toList
  providerId := "graphify".toList
  builtAt := 1
  fingerprint := []
  nodes := [apiNode]
  edges := []
  nodeIds := by decide
  edgeIds := by decide
  nodesOwned := by simp [apiEnv]
  edgesOwned := by simp
  kinds := by decide
  relations := by simp
  nodeSources := by decide
  edgeSources := by simp
  endSources := by simp
  uris := by
    intro node hnode uri huri
    rw [mem_singleton.mp hnode] at huri
    cases huri
    decide

/-- Two repositories, the first one there. -/
def apiConfig (root : String) : LocalWorkspaceConfig :=
  { workspaceId := 0
    codeGraphFeature := true
    codeGraph := some
      { providerId := "graphify".toList, repoNames := [], languages := [], includeGlobs := [],
        excludeGlobs := [] }
    repoRoots := [("api".toList, root.toList), ("web".toList, "/web".toList)] }

def firstPage : Query :=
  .page { workspaceId := 0, limit := 100, cursor := none, nodeKinds := [], limit_le := by decide }

/-- The workspace is configured. The store has a snapshot of the first
repository, and none of the second. -/
def configured : List (Act apiEnv.owner) :=
  [.create 0, .workspace 0 (.configure (apiConfig "/api")),
    .workspace 0 (.loaded (.found apiSnapshot)), .workspace 0 (.loaded .absent),
    .workspace 0 (.repo "web".toList .schedule), .workspace 0 .release,
    .workspace 0 (.repo "web".toList .wake), .workspace 0 (.repo "web".toList .begin_)]

/-- A query while the second repository is built. -/
def asked : List (Act apiEnv.owner) :=
  configured ++ [.query firstPage (some 0) (some .available)]

/-- The first repository has moved, and a query comes while its snapshot is
read from the store. -/
def moved : List (Act apiEnv.owner) :=
  configured ++ [.workspace 0 (.configure (apiConfig "/moved")),
    .query firstPage (some 0) (some .available)]

theorem queries_served_asked :
    ((execWithin (step apiEnv) (Clears apiEnv) .start asked).getD .start).Served apiEnv :=
  queries_served (Run.of_isSome_execWithin (by decide +kernel))

/-- `max` of no snapshots. -/
theorem query_raised : ¬ ∀ (env : Env) (actions : List (Act env.owner)) (s : Service env.owner),
    Run (step env) Free .start actions s → s.Served env := by
  intro h
  have hserved := h apiEnv moved _ (Run.of_isSome_execWithin (d := .start) (by decide +kernel))
  have hraised : ∃ ended ∈ ((execWithin (step apiEnv) Free .start moved).getD .start).ended,
      ended.outcome.crashed = true := by decide +kernel
  obtain ⟨ended, hmem, hcrashed⟩ := hraised
  exact (hserved ended hmem).not_crashed hcrashed

end Runs

end StudioOS.CodeQueries
