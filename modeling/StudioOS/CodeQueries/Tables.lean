import StudioOS.CodeQueries.Contract
import StudioOS.CodeQueries.Service

/-!
# Code queries — Tables

The table of a workspace has repositories of different names, each with a
snapshot of its own; so the ids of its nodes and edges are distinct.
-/

namespace StudioOS.CodeQueries

open List

section Workspace

variable {env : Env} {ws ws' : Workspace env.owner}

/-! ## The tables -/

/-- What the table of a workspace keeps. -/
structure Workspace.Shaped {owner : Text → Text} (ws : Workspace owner) : Prop where
  names : (ws.repos.map Repo.name).Nodup
  named : ∀ repo ∈ ws.repos, ∀ snapshot, repo.snapshot = some snapshot →
    snapshot.repoName = repo.name
  fresh : ∀ fresh rest, ws.lock = some (.loading fresh rest) →
    ∀ repo ∈ fresh :: rest, repo.snapshot = none

theorem Workspace.Shaped.dropRepos {owner : Text → Text} {ws : Workspace owner} (h : ws.Shaped)
    (names : List Text) : (ws.dropRepos names).Shaped where
  names := (filter_sublist.map _).nodup h.names
  named := fun repo hrepo => h.named repo (mem_of_mem_filter hrepo)
  fresh := h.fresh

theorem Workspace.Shaped.put {owner : Text → Text} {ws : Workspace owner} (h : ws.Shaped)
    {repo : Repo owner}
    (hrepo : ∀ snapshot, repo.snapshot = some snapshot → snapshot.repoName = repo.name) :
    (ws.put repo).Shaped := by
  by_cases hmem : repo.name ∈ ws.repos.map Repo.name
  · have hput : (ws.put repo).repos =
        ws.repos.map fun other => if other.name = repo.name then repo else other := by
      simp [Workspace.put, hmem]
    refine ⟨?_, ?_, h.fresh⟩
    · have : (ws.put repo).repos.map Repo.name = ws.repos.map Repo.name := by
        rw [hput, map_map]
        refine map_congr_left ?_
        intro other _
        show (if other.name = repo.name then repo else other).name = other.name
        split
        · exact Eq.symm ‹_›
        · rfl
      rw [this]
      exact h.names
    · intro other hother
      rw [hput] at hother
      obtain ⟨old, hold, rfl⟩ := mem_map.mp hother
      split
      · exact hrepo
      · exact h.named old hold
  · have hput : (ws.put repo).repos = ws.repos ++ [repo] := by
      simp [Workspace.put, hmem]
    refine ⟨?_, ?_, h.fresh⟩
    · rw [hput, map_append, nodup_append]
      refine ⟨h.names, by simp, ?_⟩
      intro name hname other hother heq
      rw [map_singleton, mem_singleton] at hother
      exact hmem (hother ▸ heq ▸ hname)
    · intro other hother
      rw [hput] at hother
      rcases mem_append.mp hother with hother | hother
      · exact h.named other hother
      · rw [mem_singleton.mp hother]
        exact hrepo

theorem Workspace.Shaped.advance {ws : Workspace env.owner} (h : ws.Shaped)
    (rest : List (Repo env.owner)) (hrest : ∀ repo ∈ rest, repo.snapshot = none) :
    (ws.advance env rest).Shaped := by
  have hload : ∀ {ws : Workspace env.owner} {fresh : Repo env.owner} {rest}, ws.Shaped →
      (∀ repo ∈ fresh :: rest, repo.snapshot = none) →
        ({ ws with lock := some (.loading fresh rest) } : Workspace env.owner).Shaped := by
    intro ws fresh rest hws hfresh
    refine ⟨hws.names, hws.named, ?_⟩
    intro other more heq
    cases heq
    exact hfresh
  induction rest with
  | nil =>
    refine ⟨h.names, h.named, ?_⟩
    intro fresh rest heq
    simp only [Workspace.advance] at heq
    split at heq <;> cases heq
  | cons fresh rest ih =>
    unfold Workspace.advance
    split
    · split
      · exact ih fun repo hrepo => hrest repo (.tail _ hrepo)
      · exact hload (h.dropRepos _) hrest
    · exact hload h hrest

theorem Repo.snapshot_cancelPump {owner} (repo : Repo owner) :
    repo.cancelPump.snapshot = repo.snapshot ∧ repo.cancelPump.name = repo.name := by
  unfold Repo.cancelPump
  split <;> exact ⟨rfl, rfl⟩

theorem Repo.act_snapshot {owner : Text → Text} {provider : Option Text} {repo repo' : Repo owner}
    {act : RepoAct} (h : repo.act provider act = some repo') :
    repo'.snapshot = repo.snapshot ∧ repo'.name = repo.name := by
  cases act with
  | looked missing =>
    cases h
    exact ⟨rfl, rfl⟩
  | schedule =>
    cases h
    unfold Repo.schedule
    split
    · exact ⟨rfl, rfl⟩
    · exact repo.snapshot_cancelPump
  | aged | unwind | wake | begin_ | failed | upToDate | nothing =>
    simp only [Repo.act] at h
    split at h <;> cases h
    exact ⟨rfl, rfl⟩

theorem Repo.built_some {owner : Text → Text} {repo repo' : Repo owner}
    {snapshot : RepoSnapshot owner} (h : repo.built snapshot = some repo') :
    repo'.snapshot = some snapshot ∧ repo'.name = repo.name ∧ snapshot.repoName = repo.name := by
  unfold Repo.built at h
  split at h
  · split at h
    · rename_i hfits
      cases h
      exact ⟨rfl, rfl, hfits.2⟩
    · cases h
  · cases h

theorem Repo.loaded_named {owner : Text → Text} {repo : Repo owner} {providerId : Text}
    {load : Load owner} (hrepo : repo.snapshot = none) :
    ∀ snapshot, (repo.loaded providerId load).snapshot = some snapshot →
      snapshot.repoName = (repo.loaded providerId load).name := by
  intro snapshot h
  cases load with
  | absent =>
    rw [show (repo.loaded providerId .absent).snapshot = repo.snapshot from rfl, hrepo] at h
    cases h
  | corrupt =>
    rw [show (repo.loaded providerId .corrupt).snapshot = repo.snapshot from rfl, hrepo] at h
    cases h
  | found found =>
    unfold Repo.loaded at h ⊢
    dsimp only at h ⊢
    split at h
    · rw [show ({ repo with corrupt := true } : Repo owner).snapshot = repo.snapshot from rfl,
        hrepo] at h
      cases h
    rename_i hname
    rw [if_neg hname]
    split at h
    · rename_i hprovider
      rw [if_pos hprovider]
      cases h
      exact not_not.mp hname
    · rw [hrepo] at h
      cases h

theorem Workspace.change_some {owner : Text → Text} {ws ws' : Workspace owner} {name : Text}
    {f : Repo owner → Option (Repo owner)} (h : ws.change name f = some ws') :
    ∃ repo ∈ ws.repos, ∃ repo', f repo = some repo' ∧ ws' = ws.put repo' := by
  unfold Workspace.change at h
  obtain ⟨repo, hfind, h⟩ := Option.bind_eq_some_iff.mp h
  obtain ⟨repo', hf, rfl⟩ := Option.map_eq_some_iff.mp h
  exact ⟨repo, List.mem_of_find?_eq_some hfind, repo', hf, rfl⟩

theorem desiredRepos_fresh {owner config settings} :
    ∀ repo ∈ (desiredRepos config settings : List (Repo owner)), repo.snapshot = none := by
  intro repo hrepo
  obtain ⟨name, -, hname⟩ := mem_filterMap.mp hrepo
  obtain ⟨root, -, rfl⟩ := Option.map_eq_some_iff.mp hname
  rfl

theorem Workspace.Shaped.configure (h : ws.Shaped) (hlock : ws.lock = none) (config) :
    (ws.configure env config).Shaped := by
  unfold Workspace.configure
  dsimp only
  split
  · refine ⟨by simp, by simp, ?_⟩
    intro fresh rest heq
    rw [show _ = ws.lock from rfl, hlock] at heq
    cases heq
  · have htaken : ({ ws with config := some config, invalid := false } :
        Workspace env.owner).Shaped := ⟨h.names, h.named, h.fresh⟩
    exact (htaken.dropRepos _).advance _ desiredRepos_fresh

theorem Workspace.Shaped.act {act} (h : ws.Shaped)
    (hact : ws.act env act = some ws') : ws'.Shaped := by
  cases act with
  | configure config =>
    simp only [Workspace.act] at hact
    split at hact
    · rename_i hfree
      cases hact
      exact h.configure (by simpa using hfree.1) config
    · cases hact
  | loaded load =>
    simp only [Workspace.act] at hact
    split at hact
    · rename_i fresh rest settings hlock hsettings
      cases hact
      have hfresh := h.fresh fresh rest hlock
      refine (h.put (Repo.loaded_named (hfresh fresh (.head _)))).advance rest ?_
      intro repo hrepo
      exact hfresh repo (.tail _ hrepo)
    · cases hact
  | release =>
    simp only [Workspace.act] at hact
    split at hact
    · cases hact
      exact ⟨h.names, h.named, by simp⟩
    · cases hact
  | invalidate =>
    simp only [Workspace.act] at hact
    split at hact
    · cases hact
      refine ⟨?_, ?_, h.fresh⟩
      · have : (ws.repos.map Repo.cancelPump).map Repo.name = ws.repos.map Repo.name := by
          rw [map_map]
          exact map_congr_left fun repo _ => repo.snapshot_cancelPump.2
        show ((ws.repos.map Repo.cancelPump).map Repo.name).Nodup
        rw [this]
        exact h.names
      · intro repo hrepo snapshot hsnapshot
        obtain ⟨old, hold, rfl⟩ := mem_map.mp hrepo
        rw [old.snapshot_cancelPump.1] at hsnapshot
        rw [old.snapshot_cancelPump.2]
        exact h.named old hold snapshot hsnapshot
    · cases hact
  | repo name act =>
    obtain ⟨repo, hrepo, repo', hstep, rfl⟩ := Workspace.change_some hact
    obtain ⟨hsnapshot, hname⟩ := Repo.act_snapshot hstep
    refine h.put ?_
    rw [hsnapshot, hname]
    exact h.named repo hrepo
  | built name snapshot =>
    obtain ⟨ws'', hchange, rfl⟩ := Option.map_eq_some_iff.mp hact
    obtain ⟨repo, hrepo, repo', hbuilt, rfl⟩ := Workspace.change_some hchange
    obtain ⟨hsnapshot, hname, hrepoName⟩ := Repo.built_some hbuilt
    have hput : (ws.put repo').Shaped := by
      refine h.put ?_
      intro other hother
      rw [hsnapshot] at hother
      cases hother
      rw [hname, hrepoName]
    exact ⟨hput.names, hput.named, hput.fresh⟩
  | detached =>
    cases hact
    exact ⟨h.names, h.named, h.fresh⟩

/-! ## The indexes -/

/-- The index of a workspace is coherent, and its nodes are those of snapshots
of the workspace. -/
def Workspace.Indexed {owner : Text → Text} (seen : List (RepoSnapshot owner))
    (ws : Workspace owner) : Prop :=
  ∀ index, ws.index = some index →
    index.Coherent ∧ ∀ node ∈ index.nodes, ∃ snapshot ∈ seen, node ∈ snapshot.nodes

theorem snapshots_names_sublist {owner} (repos : List (Repo owner))
    (hnamed : ∀ repo ∈ repos, ∀ snapshot, repo.snapshot = some snapshot →
      snapshot.repoName = repo.name) :
    ((repos.filterMap Repo.snapshot).map RepoSnapshot.repoName).Sublist (repos.map Repo.name) := by
  induction repos with
  | nil => exact List.Sublist.refl _
  | cons repo repos ih =>
    have htail := ih fun other hother => hnamed other (.tail _ hother)
    cases hsnapshot : repo.snapshot with
    | none =>
      rw [filterMap_cons_none hsnapshot, map_cons]
      exact htail.trans (sublist_cons_self _ _)
    | some snapshot =>
      rw [filterMap_cons_some hsnapshot, map_cons, map_cons,
        hnamed repo (.head _) snapshot hsnapshot]
      exact htail.cons_cons _

theorem nodup_owned {owner : Text → Text} {α : Type} {snapshots : List (RepoSnapshot owner)}
    {items : RepoSnapshot owner → List α} {id : α → Text}
    (hnames : (snapshots.map RepoSnapshot.repoName).Nodup)
    (hids : ∀ snapshot ∈ snapshots, ((items snapshot).map id).Nodup)
    (howned : ∀ snapshot ∈ snapshots, ∀ item ∈ items snapshot,
      owner (id item) = snapshot.repoName) : ((snapshots.flatMap items).map id).Nodup := by
  rw [map_flatMap, nodup_flatMap]
  refine ⟨hids, ?_⟩
  rw [List.Nodup, pairwise_map] at hnames
  refine hnames.imp_of_mem ?_
  intro first second hfirst hsecond hne x hx hy
  obtain ⟨item, hitem, rfl⟩ := mem_map.mp hx
  obtain ⟨other, hother, heq⟩ := mem_map.mp hy
  apply hne
  rw [← howned first hfirst item hitem, ← howned second hsecond other hother, heq]

theorem Workspace.makeIndex_coherent (h : ws.Shaped) {index}
    (hindex : ws.makeIndex env = some index) :
    index.Coherent ∧ ∀ node ∈ index.nodes, ∃ snapshot ∈ ws.snapshots, node ∈ snapshot.nodes := by
  unfold Workspace.makeIndex at hindex
  split at hindex
  · cases hindex
  split at hindex
  · cases hindex
  cases hindex
  have hnames : (ws.snapshots.map RepoSnapshot.repoName).Nodup :=
    (snapshots_names_sublist ws.repos h.named).nodup h.names
  refine ⟨FromSnapshots.coherent ?_, ?_⟩
  · exact
      { nodeIds := nodup_owned hnames (fun snapshot _ => snapshot.nodeIds)
          fun snapshot _ => snapshot.nodesOwned
        edgeIds := nodup_owned hnames (fun snapshot _ => snapshot.edgeIds)
          fun snapshot _ => snapshot.edgesOwned
        kinds := by
          intro node hmem
          obtain ⟨snapshot, -, hin⟩ := mem_flatMap.mp hmem
          exact snapshot.kinds node hin
        relations := by
          intro edge hmem
          obtain ⟨snapshot, -, hin⟩ := mem_flatMap.mp hmem
          exact snapshot.relations edge hin
        endSources := by
          intro edge hmem
          obtain ⟨snapshot, -, hin⟩ := mem_flatMap.mp hmem
          exact snapshot.endSources edge hin
        uris := by
          intro node hmem
          obtain ⟨snapshot, -, hin⟩ := mem_flatMap.mp hmem
          exact snapshot.uris node hin }
  · intro node hmem
    exact mem_flatMap.mp ((CodeGraphIndex.mem_make.1 node).mp hmem)

/-- The index that a step leaves: the one before, none, or the one that
`_make_index` makes of what the step leaves. -/
def Workspace.IndexFrom (ws ws' : Workspace env.owner) : Prop :=
  ws'.index = ws.index ∨ ws'.index = none ∨ ws'.index = ws'.makeIndex env

theorem Workspace.advance_index (ws : Workspace env.owner) (rest) :
    ws.IndexFrom (ws.advance env rest) := by
  induction rest with
  | nil => exact .inr (.inr rfl)
  | cons fresh rest ih =>
    unfold Workspace.advance
    split
    · split
      · exact ih
      · exact .inl rfl
    · exact .inl rfl

theorem Workspace.act_index {act} (h : ws.act env act = some ws') : ws.IndexFrom ws' := by
  cases act with
  | configure config =>
    simp only [Workspace.act] at h
    split at h
    · cases h
      unfold Workspace.configure
      dsimp only
      split
      · exact .inr (.inl rfl)
      · exact Workspace.advance_index _ _
    · cases h
  | loaded load =>
    simp only [Workspace.act] at h
    split at h
    · cases h
      exact Workspace.advance_index _ _
    · cases h
  | release | invalidate =>
    simp only [Workspace.act] at h
    split at h <;> cases h
    exact .inl rfl
  | repo name act =>
    obtain ⟨repo, -, repo', -, rfl⟩ := Workspace.change_some h
    exact .inl rfl
  | built name snapshot =>
    obtain ⟨ws'', -, rfl⟩ := Option.map_eq_some_iff.mp h
    exact .inr (.inr rfl)
  | detached =>
    cases h
    exact .inr (.inr rfl)

theorem Workspace.Indexed.mono {owner : Text → Text} {seen more : List (RepoSnapshot owner)}
    {ws : Workspace owner} (h : ws.Indexed seen) (hsub : seen ⊆ more) : ws.Indexed more := by
  intro index hindex
  obtain ⟨hcoherent, hnodes⟩ := h index hindex
  refine ⟨hcoherent, ?_⟩
  intro node hnode
  obtain ⟨snapshot, hsnapshot, hin⟩ := hnodes node hnode
  exact ⟨snapshot, hsub hsnapshot, hin⟩

theorem Workspace.Indexed.act {seen act} (h : ws.Indexed seen) (hshaped : ws'.Shaped)
    (hact : ws.act env act = some ws') :
    ws'.Indexed (ws'.snapshots ++ seen) := by
  intro index hindex
  rcases Workspace.act_index hact with heq | heq | heq
  · exact (h.mono (subset_append_right _ _)) index (heq ▸ hindex)
  · rw [heq] at hindex
    cases hindex
  · obtain ⟨hcoherent, hnodes⟩ := Workspace.makeIndex_coherent hshaped (heq ▸ hindex)
    refine ⟨hcoherent, ?_⟩
    intro node hnode
    obtain ⟨snapshot, hsnapshot, hin⟩ := hnodes node hnode
    exact ⟨snapshot, mem_append_left _ hsnapshot, hin⟩

theorem Workspace.advance_workspaceId (ws : Workspace env.owner)
    (rest) : (ws.advance env rest).workspaceId = ws.workspaceId := by
  induction rest with
  | nil => rfl
  | cons fresh rest ih =>
    unfold Workspace.advance
    split
    · split
      · exact ih
      · rfl
    · rfl

theorem Workspace.act_workspaceId {act}
    (h : ws.act env act = some ws') : ws'.workspaceId = ws.workspaceId := by
  cases act with
  | configure config =>
    simp only [Workspace.act] at h
    split at h
    · cases h
      unfold Workspace.configure
      dsimp only
      split
      · rfl
      · exact Workspace.advance_workspaceId _ _
    · cases h
  | loaded load =>
    simp only [Workspace.act] at h
    split at h
    · cases h
      exact Workspace.advance_workspaceId _ _
    · cases h
  | release | invalidate =>
    simp only [Workspace.act] at h
    split at h <;> cases h
    rfl
  | repo name act =>
    obtain ⟨repo, -, repo', -, rfl⟩ := Workspace.change_some h
    rfl
  | built name snapshot =>
    obtain ⟨ws'', hchange, rfl⟩ := Option.map_eq_some_iff.mp h
    obtain ⟨repo, -, repo', -, rfl⟩ := Workspace.change_some hchange
    rfl
  | detached =>
    cases h
    rfl

end Workspace

end StudioOS.CodeQueries
