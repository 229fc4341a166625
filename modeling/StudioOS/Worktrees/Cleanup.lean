import StudioOS.Worktrees.Safety

/-!
# Cleanup — no commit becomes unreachable

`apply_cleanup` removes candidates one after the other, and deletes a branch
only when its upstream or the `HEAD` it runs in still reaches it.
-/

namespace StudioOS.Worktrees

open List

variable {κ : Type} [DecidableEq κ]

/-- What is left of a repository while a cleanup goes on that runs in `main` and removes linked
worktrees that may go. -/
structure Intact (repo left : Repository κ) (main : Worktree κ) (goes : Worktree κ → Prop) :
    Prop where
  graph : left.graph = repo.graph
  upstream : left.upstream = repo.upstream
  top : left.main = repo.main
  refs : ∀ ref ∈ left.refs, ref ∈ repo.refs
  linked : ∀ worktree ∈ left.linked, worktree ∈ repo.linked
  gone : ∀ worktree ∈ repo.linked, worktree ∈ left.linked ∨ goes worktree
  runs : main ∈ left.worktrees
  head : left.headCommit main = repo.headCommit main
  covered : ∀ ref ∈ repo.refs, ∀ commit, repo.graph.Reaches ref.commit commit →
    (∃ other ∈ left.refs, repo.graph.Reaches other.commit commit) ∨
      ∃ tip, repo.headCommit main = some tip ∧ repo.graph.Reaches tip commit

section Steps

variable {repo left : Repository κ} {main worktree : Worktree κ} {goes : Worktree κ → Prop}

omit [DecidableEq κ] in
theorem Intact.start (hmain : main ∈ repo.worktrees) : Intact repo repo main goes :=
  { graph := rfl
    upstream := rfl
    top := rfl
    refs := fun _ href => href
    linked := fun _ hlinked => hlinked
    gone := fun _ hlinked => .inl hlinked
    runs := hmain
    head := rfl
    covered := fun ref href _ hreach => .inl ⟨ref, href, hreach⟩ }

omit [DecidableEq κ] in
theorem Intact.without (h : Intact repo left main goes) (hgoes : goes worktree)
    (hlinked : worktree ∈ repo.linked) (hne : main.path ≠ worktree.path) :
    Intact repo (left.without worktree.path) main goes := by
  refine { h with linked := ?_, gone := ?_, runs := ?_, head := ?_, covered := ?_ }
  · intro other hother
    exact h.linked other (mem_filter.mp hother).1
  · intro other hother
    rcases h.gone other hother with hleft | hgone
    · by_cases hpath : other.path = worktree.path
      · have hmem : ∀ {w}, w ∈ repo.linked → w ∈ repo.worktrees := mem_cons_of_mem _
        rw [Keyed.eq_of_key repo.paths (hmem hother) (hmem hlinked) hpath]
        exact .inr hgoes
      · exact .inl (mem_filter.mpr ⟨hleft, by simpa using hpath⟩)
    · exact .inr hgone
  · rcases mem_cons.mp h.runs with htop | hmain
    · exact mem_cons.mpr (.inl htop)
    · exact .tail _ (mem_filter.mpr ⟨hmain, by simpa using hne⟩)
  · exact h.head
  · exact h.covered

omit [DecidableEq κ] in
theorem lookup_withoutRef {ref gone} (h : ref ≠ gone) :
    (left.withoutRef gone).lookup ref = left.lookup ref := by
  rw [Repository.lookup, Repository.lookup]
  show ((left.refs.filter fun entry => entry.name ≠ gone).find? fun entry => entry.name = ref).map
    Ref.commit = _
  rw [List.find?_filter]
  congr 2
  ext entry
  by_cases hentry : entry.name = ref
  · simp [hentry, h]
  · simp [hentry]

omit [DecidableEq κ] in
theorem headRef_inj {name other} (h : headRef name = headRef other) : name = other := by
  rw [headRef, headRef, ← String.toList_inj, String.toList_append, String.toList_append] at h
  exact String.toList_inj.mp (append_cancel_left h)

omit [DecidableEq κ] in
theorem Intact.withoutRef (h : Intact repo left main goes) {name tip base}
    (hself : repo.upstream name ≠ some (headRef name))
    (hfree : ∀ other ∈ left.worktrees, other.branch ≠ some name)
    (htip : left.lookup (headRef name) = some tip)
    (hbase : ((left.upstreamOf name).bind left.lookup).or (left.headCommit main) = some base)
    (hmerged : left.graph.Reaches base tip) :
    Intact repo (left.withoutRef (headRef name)) main goes := by
  have hbaseKept : (∃ other ∈ (left.withoutRef (headRef name)).refs, other.commit = base) ∨
      repo.headCommit main = some base := by
    rcases Option.or_eq_some_iff.mp hbase with hupstream | ⟨-, hhead⟩
    · obtain ⟨ref, href, hlookup⟩ := Option.bind_eq_some_iff.mp hupstream
      obtain ⟨entry, hentry, rfl, rfl⟩ := Repository.exists_of_lookup hlookup
      obtain ⟨hconfigured, -⟩ := Option.filter_eq_some_iff.mp href
      rw [h.upstream] at hconfigured
      have hne : entry.name ≠ headRef name := by
        intro heq
        rw [heq] at hconfigured
        exact hself hconfigured
      exact .inl ⟨entry, mem_filter.mpr ⟨hentry, by simpa using hne⟩, rfl⟩
    · exact .inr (h.head.symm.trans hhead)
  refine { h with refs := ?_, head := ?_, covered := ?_ }
  · intro ref href
    exact h.refs ref (mem_filter.mp href).1
  · rw [← h.head, Repository.headCommit, Repository.headCommit]
    cases hhead : main.head with
    | detached commit => rfl
    | branch other =>
      refine lookup_withoutRef fun heq => hfree main h.runs ?_
      simp [Worktree.branch, hhead, headRef_inj heq]
  · intro ref href commit hreach
    rcases h.covered ref href commit hreach with ⟨other, hother, hholds⟩ | hhead
    · by_cases hname : other.name = headRef name
      · have hcommit : other.commit = tip := by
          have hlookup := Repository.lookup_of_mem hother
          rw [hname, htip] at hlookup
          exact (Option.some.inj hlookup).symm
        rw [hcommit] at hholds
        rw [h.graph] at hmerged
        rcases hbaseKept with ⟨kept, hkept, rfl⟩ | hkept
        · exact .inl ⟨kept, hkept, hmerged.trans hholds⟩
        · exact .inr ⟨base, hkept, hmerged.trans hholds⟩
      · exact .inl ⟨other, mem_filter.mpr ⟨hother, by simpa using hname⟩, hholds⟩
    · exact .inr hhead

theorem Intact.removeEntry (h : Intact repo left main goes) (hgoes : goes worktree)
    (hlinked : worktree ∈ repo.linked) (hne : main.path ≠ worktree.path)
    (hself : ∀ name, worktree.branch = some name → repo.upstream name ≠ some (headRef name)) {entry}
    (hpath : entry.path = worktree.path) (hbranch : entry.branch = worktree.branch) (done) :
    Intact repo (removeEntry main left done entry).1 main goes := by
  have hremove : Intact repo (left.worktreeRemove entry.path).1 main goes := by
    rw [Repository.worktreeRemove, hpath]
    split
    · exact h
    split
    · exact h
    · split
      · exact h
      · split
        · exact h
        · exact h.without hgoes hlinked hne
  rw [StudioOS.Worktrees.removeEntry]
  simp only
  split
  · exact hremove
  split
  · exact hremove
  rename_i name hname
  have hdelete : Intact repo ((left.worktreeRemove entry.path).1.branchDelete name main).1
      main goes := by
    rw [Repository.branchDelete]
    split
    · exact hremove
    rename_i tip htip
    split
    · exact hremove
    rename_i hfree
    split
    · exact hremove
    rename_i base hbase
    split
    · rename_i hmerged
      refine hremove.withoutRef (hself name (hbranch ▸ hname)) ?_ htip hbase
        (Ancestry.reaches_iff.mp hmerged)
      intro other hother hcheckedOut
      exact hfree (any_eq_true.mpr ⟨other, hother, by simpa using hcheckedOut⟩)
    · exact hremove
  split <;> exact hdelete

theorem Intact.removeAll (h : Intact repo left main goes) {entries}
    (hentries : ∀ entry ∈ entries, ∃ worktree ∈ repo.linked, goes worktree ∧
      main.path ≠ worktree.path ∧ entry.path = worktree.path ∧ entry.branch = worktree.branch ∧
      ∀ name, worktree.branch = some name → repo.upstream name ≠ some (headRef name))
    (done) : Intact repo (removeAll main left done entries).1 main goes := by
  induction entries generalizing left done with
  | nil => exact h
  | cons entry entries ih =>
    obtain ⟨worktree, hlinked, hgoes, hne, hpath, hbranch, hself⟩ := hentries entry (by simp)
    exact ih (h.removeEntry hgoes hlinked hne hself hpath hbranch done)
      (fun other hother => hentries other (.tail _ hother)) _

omit [DecidableEq κ] in
/-- **Nothing is lost** when the worktrees that go were held. -/
theorem Intact.keeps (h : Intact repo left main goes)
    (hheld : ∀ worktree, goes worktree → repo.Held worktree) {commit}
    (hkeeps : repo.Keeps commit) : left.Keeps commit := by
  have hrefs : ∀ ref ∈ repo.refs, repo.graph.Reaches ref.commit commit → left.Keeps commit := by
    intro ref href hreach
    rcases h.covered ref href commit hreach with ⟨other, hother, hholds⟩ | ⟨tip, htip, hholds⟩
    · exact .inl ⟨other, hother, by rwa [h.graph]⟩
    · exact .inr ⟨main, h.runs, tip, h.head.trans htip, by rwa [h.graph]⟩
  have hlookup : ∀ {name tip}, repo.lookup name = some tip → repo.graph.Reaches tip commit →
      left.Keeps commit := by
    intro name tip hname hreach
    obtain ⟨ref, href, -, rfl⟩ := Repository.exists_of_lookup hname
    exact hrefs ref href hreach
  rcases hkeeps with ⟨ref, href, hreach⟩ | ⟨worktree, hworktree, tip, htip, hreach⟩
  · exact hrefs ref href hreach
  cases hhead : worktree.head with
  | branch name =>
    rw [Repository.headCommit, hhead] at htip
    exact hlookup htip hreach
  | detached other =>
    have hstays : worktree ∈ left.worktrees → left.Keeps commit := by
      intro hleft
      refine .inr ⟨worktree, hleft, tip, ?_, by rwa [h.graph]⟩
      rw [Repository.headCommit, hhead] at htip ⊢
      exact htip
    rcases mem_cons.mp hworktree with htop | hlinked
    · exact hstays (mem_cons.mpr (.inl (htop.trans h.top.symm)))
    rcases h.gone worktree hlinked with hleft | hgone
    · exact hstays (.tail _ hleft)
    · rcases hheld worktree hgone tip htip commit hreach with
        ⟨ref, href, hholds⟩ | ⟨ref, href, -, hholds⟩
      · exact hrefs ref (mem_filter.mp href).1 hholds
      · exact hrefs ref (mem_filter.mp href).1 hholds

end Steps

section Cleanup

variable {env : Env} {repo : Repository κ} {repoRoot : String} {activeTaskIds : List Uuid}

omit [DecidableEq κ] in
theorem Removable.ne_root {root worktree}
    (h : Removable env repo root activeTaskIds worktree) : root ≠ worktree.path := by
  obtain ⟨key, hkey, -⟩ := h.managed
  rintro rfl
  rw [managedTaskKey, if_neg (by simp)] at hkey
  simp only at hkey
  split at hkey
  · rename_i hfront
    have hlength := ( isPrefixOf_iff_prefix.mp hfront).length_le
    have hsuffix : worktreeSuffix.toList.length = 4 := rfl
    rw [String.toList_append, length_append, hsuffix] at hlength
    omega
  · cases hkey

/-- No branch of a worktree that may go is its own upstream. -/
def NoOwnUpstream (env : Env) (repo : Repository κ) (repoRoot : String)
    (activeTaskIds : List Uuid) : Prop :=
  ∀ worktree, Removable env repo (env.resolve repoRoot) activeTaskIds worktree →
    ∀ name, worktree.branch = some name → repo.upstream name ≠ some (headRef name)

theorem applyCleanup_keeps (hheld : HeldOrKept env repo repoRoot activeTaskIds)
    (hself : NoOwnUpstream env repo repoRoot activeTaskIds) {approved}
    (happroved : approved.activeTaskIds = activeTaskIds) (confirmDigest) {commit}
    (hkeeps : repo.Keeps commit) :
    (applyCleanup env repo repoRoot approved confirmDigest).1.Keeps commit := by
  rw [applyCleanup, happroved]
  split
  · exact hkeeps
  split
  · exact hkeeps
  rename_i fresh hfresh
  split
  · exact hkeeps
  split
  · exact hkeeps
  rename_i main hmain
  obtain ⟨main', hmain', hcandidates, -⟩ := mem_candidates hfresh
  obtain ⟨_, _, _, _, _, hroot⟩ := planCleanup_ok hfresh
  rw [hroot, hmain'] at hmain
  cases hmain
  obtain ⟨hmem, hpath, -⟩ := Repository.mem_of_worktreeAt hmain'
  have hintact := (Intact.start hmem).removeAll (fun entry hentry => by
    obtain ⟨worktree, hremovable, hlooks, hentryPath, hbranch⟩ := hcandidates entry hentry
    exact ⟨worktree, hremovable.linked, And.intro hremovable hlooks,
      fun heq => hremovable.ne_root (hpath ▸ heq), hentryPath, hbranch,
      hself worktree hremovable⟩)
    { removed := [], deletedBranches := [], refused := [] }
  refine hintact.keeps (fun worktree hgoes => ?_) hkeeps
  obtain ⟨hremovable, hlooks⟩ := hgoes
  by_cases hplain : repo.Plain worktree
  · exact hplain.held hlooks
  · exact hheld _ hmain' worktree hremovable hplain hlooks

theorem planCleanup_returns {main} (hmain : repo.worktreeAt (env.resolve repoRoot) = some main)
    (hpresent : ∀ worktree ∈ repo.linked, worktree.present = true) :
    ∃ plan, planCleanup env repoRoot activeTaskIds repo.run = .ok plan := by
  have hlisted : runGit repo.run .worktreeList (env.resolve repoRoot) = .ok (.ok repo.porcelain) := by
    simp [runGit, Repository.run, hmain]
  have hall : ∃ found, classifyAll env (env.resolve repoRoot)
      ((sortedIds activeTaskIds).map taskKey) repo.run repo.porcelain = .ok found := by
    cases hfound : classifyAll env (env.resolve repoRoot)
        ((sortedIds activeTaskIds).map taskKey) repo.run repo.porcelain with
    | ok found => exact ⟨found, rfl⟩
    | error failure =>
      obtain ⟨⟨entry, i⟩, hentry, hfails⟩ := mapM_error hfound
      obtain ⟨worktree, hworktree, rfl⟩ := mem_zipIdx_porcelain.mp hentry
      cases i with
      | zero => cases hfails
      | succ i =>
        have hlinked : worktree ∈ repo.linked := mem_of_getElem? hworktree
        have hat := Repository.worktreeAt_of_mem (.tail _ hlinked)
          (hpresent worktree hlinked)
        obtain ⟨unpushed, hunpushed, -⟩ := isUnpushed_run hmain hat
        simp only [classify] at hfails
        rw [if_neg (by simp)] at hfails
        split at hfails
        · cases hfails
        · rw [isDirty_run hat, hunpushed] at hfails
          cases hfails
  obtain ⟨found, hfound⟩ := hall
  have hok : ¬ (GitResult.ok repo.porcelain).returncode ≠ 0 := by simp [GitResult.ok]
  simp only [planCleanup, hlisted, bind, Except.bind]
  rw [if_neg hok, show (GitResult.ok repo.porcelain).stdout = repo.porcelain from rfl, hfound]
  exact ⟨_, rfl⟩

/-- **A cleanup loses nothing** exactly when the worktrees that are not plain are held where the
revision that is asked for looks pushed. -/
theorem cleanup_safe {plan : CleanupPlan}
    (h : planCleanup env repoRoot activeTaskIds repo.run = .ok plan) :
    (SafePlan env repo (env.resolve repoRoot) activeTaskIds plan ↔
      HeldOrKept env repo repoRoot activeTaskIds) ∧ (HeldOrKept env repo repoRoot activeTaskIds →
        NoOwnUpstream env repo repoRoot activeTaskIds →
        ∀ (approved : CleanupPlan) (confirmDigest : String),
          approved.activeTaskIds = activeTaskIds → ∀ commit, repo.Keeps commit →
            (applyCleanup env repo repoRoot approved confirmDigest).1.Keeps commit) :=
  ⟨safePlan_iff h, fun hheld hself _ confirmDigest happroved _ hkeeps =>
    applyCleanup_keeps hheld hself happroved confirmDigest hkeeps⟩

end Cleanup

namespace Sample

/-- Commit 1 comes after commit 0. -/
def graph : Ancestry Nat where
  nodes := [0, 1]
  parents n := if n = 1 then [0] else []
  rank n := n
  nodup := by decide
  closed := by decide
  rank_lt := by
    intro n parent hparent
    by_cases h : n = 1
    · rw [if_pos h, mem_singleton] at hparent
      omega
    · rw [if_neg h] at hparent
      cases hparent

def worktree (path : String) (head : Head Nat) (isPath : IsPath path)
    (isName : ∀ name, head = .branch name → IsName name) : Worktree Nat where
  path
  head
  locked := none
  status := ""
  present := true
  busy := false
  isPath
  isName
  unbroken := by simp

def project : Worktree Nat :=
  worktree "/w/project" (.branch "dev") (by decide) (by
    intro name h
    rw [← Head.branch.inj h]
    decide)

/-- The worktree of a task, at a commit that is on no branch. -/
def task : Worktree Nat :=
  worktree "/w/project-wt-0b7f9d1e" (.detached 1) (by decide) (by simp)

/-- `dev` is pushed; what the task has committed is not. -/
def repo : Repository Nat where
  graph
  hash n := if n = 1 then "b" else "a"
  refs := [⟨"refs/heads/dev", 0⟩, ⟨"refs/remotes/origin/dev", 0⟩]
  upstream name := if name = "dev" then some "refs/remotes/origin/dev" else none
  main := project
  linked := [task]
  distinct := by decide
  hash_isName n := by
    by_cases h : n = 1
    · rw [if_pos h]
      decide
    · rw [if_neg h]
      decide
  ref_mem := by decide
  ref_isName := by decide
  ref_ne := by decide
  head_mem := by
    intro worktree hworktree commit hhead
    rcases mem_cons.mp hworktree with rfl | hworktree
    · cases hhead
    · rw [mem_singleton.mp hworktree] at hhead
      obtain rfl := Head.detached.inj hhead
      decide
  paths := by decide

def env : Env where
  resolve := id
  parent path := String.ofList ((path.toList.reverse.dropWhile (· ≠ '/')).drop 1).reverse
  name path := String.ofList (path.toList.reverse.takeWhile (· ≠ '/')).reverse
  normalized := id
  sha256 text := text

theorem main_at : repo.worktreeAt (env.resolve "/w/project") = some project :=
  Repository.worktreeAt_of_mem (mem_cons_self) rfl

theorem plan_returns : ∃ plan, planCleanup env "/w/project" [] repo.run = .ok plan :=
  planCleanup_returns main_at (by
    intro worktree hworktree
    rw [mem_singleton.mp hworktree]
    rfl)

end Sample

open Sample in
theorem cleanup_safe_sample : ∃ plan, planCleanup env "/w/project" [] repo.run = .ok plan ∧
    (SafePlan env repo (env.resolve "/w/project") [] plan ↔ HeldOrKept env repo "/w/project" []) := by
  obtain ⟨plan, hplan⟩ := plan_returns
  exact ⟨plan, hplan, (cleanup_safe hplan).1⟩

open Sample in
/-- The worktree of the task is a candidate, and its commit is on nothing else. -/
theorem detached_candidate : ∃ plan, planCleanup env "/w/project" [] repo.run = .ok plan ∧
    ¬ SafePlan env repo (env.resolve "/w/project") [] plan := by
  obtain ⟨plan, hplan⟩ := plan_returns
  refine ⟨plan, hplan, fun hsafe => ?_⟩
  have hremovable : Removable env repo (env.resolve "/w/project") [] task :=
    { linked := mem_singleton.mpr rfl
      clean := rfl
      unlocked := by
        intro other hother hlocked
        rcases mem_cons.mp hother with rfl | hother
        · cases hlocked
        · rw [mem_singleton.mp hother] at hlocked
          cases hlocked
      managed := ⟨"0b7f9d1e", by decide +kernel, by simp⟩ }
  have hlooks : repo.LooksPushed project task := by
    refine ⟨0, by decide +kernel, (Ancestry.countRange_eq_zero (by decide)).mp (by decide +kernel)⟩
  have hplain : ¬ repo.Plain task := by
    intro h
    obtain ⟨name, hhead, -⟩ := h
    cases hhead
  have hheld := (safePlan_iff hplan).mp hsafe project main_at task hremovable hplain hlooks
  have hnone : ∀ ref ∈ repo.refs, repo.graph.reaches ref.commit 1 = false := by decide +kernel
  have hlost : ∀ ref ∈ repo.refs, ¬ repo.graph.Reaches ref.commit 1 := by
    intro ref href hholds
    rw [← Ancestry.reaches_iff, hnone ref href] at hholds
    cases hholds
  rcases hheld 1 rfl 1 Relation.ReflTransGen.refl with ⟨ref, href, hholds⟩ | ⟨ref, href, -, hholds⟩
  · exact hlost ref (mem_filter.mp href).1 hholds
  · exact hlost ref (mem_filter.mp href).1 hholds

end StudioOS.Worktrees
