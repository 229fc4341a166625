import StudioOS.Worktrees.Queries

/-!
# Safety — what a cleanup may lose

A candidate is clean, unlocked, managed and claimed by no active task. Its
commits are held elsewhere when its branch is read by its own name and its
upstream, if any, is another reference; for every other worktree, detached
ones first, the retention asks about a revision that is not the worktree's.
-/

namespace StudioOS.Worktrees

open List Option

variable {κ : Type}

/-! ## What is held -/

/-- Every commit of the worktree is reachable from a remote-tracking reference or from a local
branch that it has not checked out. -/
def Repository.Held (repo : Repository κ) (worktree : Worktree κ) : Prop :=
  ∀ tip, repo.headCommit worktree = some tip → ∀ commit, repo.graph.Reaches tip commit →
    (∃ ref ∈ repo.remotes, repo.graph.Reaches ref.commit commit) ∨
      ∃ ref ∈ repo.heads, some ref.name ≠ worktree.branch.map headRef ∧
        repo.graph.Reaches ref.commit commit

/-- The commit is reachable from a reference or from a `HEAD`. -/
def Repository.Keeps (repo : Repository κ) (commit : κ) : Prop :=
  (∃ ref ∈ repo.refs, repo.graph.Reaches ref.commit commit) ∨
    ∃ worktree ∈ repo.worktrees, ∃ tip, repo.headCommit worktree = some tip ∧
      repo.graph.Reaches tip commit

/-- The worktree is on a branch that its name stands for, whose upstream, if any, is a
remote-tracking reference or another branch. -/
def Repository.Plain (repo : Repository κ) (worktree : Worktree κ) : Prop :=
  ∃ name, worktree.head = .branch name ∧ repo.shortName (headRef name) = name ∧
    ∀ ref, repo.upstreamOf name = some ref → ref ≠ headRef name ∧
      ∃ entry ∈ repo.remotes ++ repo.heads, entry.name = ref

/-- A linked worktree that is managed, clean and not locked, of no active task. -/
structure Removable (env : Env) (repo : Repository κ) (root : String) (activeTaskIds : List Uuid)
    (worktree : Worktree κ) : Prop where
  linked : worktree ∈ repo.linked
  clean : Text.strip worktree.status.toList = []
  unlocked : ∀ other ∈ repo.worktrees, other.locked.isSome →
    env.normalized other.path ≠ env.normalized worktree.path
  managed : ∃ key, managedTaskKey env worktree.path root = some key ∧
    ∀ taskId ∈ activeTaskIds, taskKey taskId ≠ key

/-- Every candidate of the plan is a worktree that may go. -/
def SafePlan (env : Env) (repo : Repository κ) (root : String) (activeTaskIds : List Uuid)
    (plan : CleanupPlan) : Prop :=
  ∀ entry ∈ plan.entries, entry.verdict = .candidate →
    ∃ worktree, Removable env repo root activeTaskIds worktree ∧
      entry.path = worktree.path ∧ entry.branch = worktree.branch ∧ repo.Held worktree

section Plain

variable {repo : Repository κ} {worktree root : Worktree κ}

/-- **A plain worktree that looks pushed is held.** -/
theorem Repository.Plain.held (hplain : repo.Plain worktree)
    (hlooks : repo.LooksPushed root worktree) : repo.Held worktree := by
  obtain ⟨name, hhead, hshort, hupstream⟩ := hplain
  have hbranch : worktree.branch = some name := by simp [Worktree.branch, hhead]
  intro tip htip commit hreach
  have htipRef : repo.lookup (headRef name) = some tip := by
    simpa [Repository.headCommit, hhead] using htip
  have hresolve : ∀ other, repo.resolve other (revOf worktree.branch) = some tip := by
    intro other
    rw [revOf_branch, hhead]
    have hown := Repository.resolve_shortName htipRef other
    rwa [hshort] at hown
  rw [Repository.LooksPushed, hbranch, bind_some] at hlooks
  cases hup : repo.upstreamOf name with
  | some ref =>
    simp only [hup] at hlooks
    obtain ⟨base, tip', hbase, htip', hcovered⟩ := hlooks
    rw [← hbranch, hresolve] at htip'
    cases htip'
    obtain ⟨other, hother, hholds⟩ := hcovered tip (by simp) commit hreach
    rw [mem_singleton.mp hother] at hholds
    obtain ⟨hne, entry, hentry, rfl⟩ := hupstream ref hup
    have hrefs : entry ∈ repo.refs := by
      rcases mem_append.mp hentry with hentry | hentry <;> exact (mem_filter.mp hentry).1
    rw [Repository.lookup_of_mem hrefs] at hbase
    cases hbase
    rcases mem_append.mp hentry with hentry | hentry
    · exact .inl ⟨entry, hentry, hholds⟩
    · refine .inr ⟨entry, hentry, ?_, hholds⟩
      rw [hbranch]
      simpa using hne
  | none =>
    simp only [hup] at hlooks
    obtain ⟨tip', htip', hcovered⟩ := hlooks
    rw [← hbranch, hresolve] at htip'
    cases htip'
    obtain ⟨other, hother, hholds⟩ := hcovered tip (by simp) commit hreach
    rcases mem_append.mp hother with hremote | hother
    · obtain ⟨ref, href, rfl⟩ := List.mem_map.mp hremote
      exact .inl ⟨ref, href, hholds⟩
    obtain ⟨ref, href, rfl⟩ := List.mem_map.mp (mem_of_mem_tail (everyOther_subset hother))
    obtain ⟨hheads, hdiffers⟩ := mem_filter.mp href
    refine .inr ⟨ref, hheads, ?_, hholds⟩
    rw [hbranch]
    intro heq
    obtain hname : ref.name = headRef name := some.inj heq
    simp [hname, hshort] at hdiffers

end Plain

section Verdict

variable [DecidableEq κ] {repo : Repository κ} {worktree : Worktree κ}
  {root : String}

theorem runGit_some {command cwd result} (h : runGit repo.run command cwd = .ok result) :
    ∃ worktree, repo.worktreeAt cwd = some worktree := by
  cases hat : repo.worktreeAt cwd with
  | none => simp [runGit, Repository.run, hat] at h
  | some worktree => exact ⟨worktree, rfl⟩

/-- **The verdict** of a linked worktree that is there, and what the entry says of it. -/
theorem classify_linked {env main} (hroot : repo.worktreeAt root = some main)
    (hlinked : worktree ∈ repo.linked) {locked entry}
    (h : classify env root { path := worktree.path, branch := worktree.branch } false locked active
      repo.run = .ok entry) :
    entry.path = worktree.path ∧ entry.branch = worktree.branch ∧
      (entry.verdict = .candidate ↔
        (∃ key, managedTaskKey env worktree.path root = some key ∧ key ∉ active) ∧
          locked = false ∧ Text.strip worktree.status.toList = [] ∧
          repo.LooksPushed main worktree) := by
  have hmem : worktree ∈ repo.worktrees := .tail _ hlinked
  simp only [classify, Bool.false_eq_true, if_false] at h
  cases hkey : managedTaskKey env worktree.path root with
  | none =>
    simp only [hkey] at h
    cases h
    simp [excluded]
  | some key =>
    simp only [hkey] at h
    obtain ⟨dirty, hdirty, h⟩ := bind_ok h
    obtain ⟨unpushed, hunpushed, h⟩ := bind_ok h
    obtain ⟨status, hstatus, -⟩ := bind_ok hdirty
    obtain ⟨other, hother⟩ := runGit_some hstatus
    obtain ⟨hotherMem, hpath, -⟩ := Repository.mem_of_worktreeAt hother
    obtain rfl := Keyed.eq_of_key repo.paths hotherMem hmem hpath
    rw [isDirty_run hother] at hdirty
    cases hdirty
    obtain ⟨found, hfound, hlooks⟩ := isUnpushed_run hroot hother
    rw [hfound] at hunpushed
    obtain rfl := Except.ok.inj hunpushed
    obtain rfl := Except.ok.inj h
    rw [← hlooks]
    by_cases hactive : key ∈ active
    · simp [hactive, excluded]
    cases locked with
    | true => simp [excluded]
    | false =>
      by_cases hclean : Text.strip other.status.toList = []
      · cases found with
        | true => simp [excluded]
        | false => simp [hactive, hclean]
      · simp [hclean, excluded]

end Verdict

/-! ## The plan -/

section Plan

variable [DecidableEq κ] {env : Env} {repo : Repository κ} {repoRoot : String}
  {activeTaskIds : List Uuid} {plan : CleanupPlan}

theorem mem_sortedIds {taskIds taskId} : taskId ∈ sortedIds taskIds ↔ taskId ∈ taskIds := by
  rw [sortedIds, (mergeSort_perm _ _).mem_iff, mem_dedup]

theorem planCleanup_ok (h : planCleanup env repoRoot activeTaskIds repo.run = .ok plan) :
    ∃ main found, repo.worktreeAt (env.resolve repoRoot) = some main ∧
      classifyAll env (env.resolve repoRoot) ((sortedIds activeTaskIds).map taskKey) repo.run
        repo.porcelain = .ok found ∧
      plan.entries.Perm found ∧ plan.repoRoot = env.resolve repoRoot := by
  obtain ⟨listed, hlisted, h⟩ := bind_ok h
  obtain ⟨main, hmain⟩ := runGit_some hlisted
  have hresult : listed = .ok repo.porcelain := by
    simp only [runGit, Repository.run, hmain] at hlisted
    exact (Except.ok.inj hlisted).symm
  rw [hresult, if_neg (by simp [GitResult.ok])] at h
  obtain ⟨found, hfound, h⟩ := bind_ok h
  cases h
  exact ⟨main, found, hmain, hfound, mergeSort_perm _ _, rfl⟩

omit [DecidableEq κ] in
theorem mem_zipIdx_porcelain {entry i} :
    (entry, i) ∈ (parseWorktrees repo.porcelain).zipIdx ↔
      ∃ worktree, repo.worktrees[i]? = some worktree ∧
        { path := worktree.path, branch := worktree.branch } = entry := by
  rw [List.mk_mem_zipIdx_iff_getElem?, parseWorktrees_porcelain, List.getElem?_map, map_eq_some_iff]

omit [DecidableEq κ] in
theorem unlocked_iff {path} :
    decide (env.normalized path ∈ lockedPaths env repo.porcelain) = false ↔
      ∀ other ∈ repo.worktrees, other.locked.isSome →
        env.normalized other.path ≠ env.normalized path := by
  rw [decide_eq_false_iff_not, lockedPaths_porcelain]
  constructor
  · intro h other hother hlocked heq
    exact h (List.mem_map.mpr ⟨other, mem_filter.mpr ⟨hother, hlocked⟩, heq⟩)
  · intro h hmem
    obtain ⟨other, hother, heq⟩ := List.mem_map.mp hmem
    obtain ⟨hworktree, hlocked⟩ := mem_filter.mp hother
    exact h other hworktree hlocked heq

theorem classify_removable {main worktree entry}
    (hmain : repo.worktreeAt (env.resolve repoRoot) = some main) (hlinked : worktree ∈ repo.linked)
    (h : classify env (env.resolve repoRoot) { path := worktree.path, branch := worktree.branch }
      false (decide (env.normalized worktree.path ∈ lockedPaths env repo.porcelain))
      ((sortedIds activeTaskIds).map taskKey) repo.run = .ok entry) :
    entry.path = worktree.path ∧ entry.branch = worktree.branch ∧
      (entry.verdict = .candidate ↔
        Removable env repo (env.resolve repoRoot) activeTaskIds worktree ∧
          repo.LooksPushed main worktree) := by
  obtain ⟨hpath, hbranch, hverdict⟩ := classify_linked hmain hlinked h
  refine ⟨hpath, hbranch, hverdict.trans ?_⟩
  have hactive : ∀ key, key ∉ (sortedIds activeTaskIds).map taskKey ↔
      ∀ taskId ∈ activeTaskIds, taskKey taskId ≠ key := by
    intro key
    simp [mem_sortedIds, not_exists, not_and]
  constructor
  · intro hcandidate
    obtain ⟨⟨key, hkey, hinactive⟩, hlocked, hclean, hlooks⟩ := hcandidate
    exact ⟨⟨hlinked, hclean, unlocked_iff.mp hlocked, key, hkey, (hactive key).mp hinactive⟩, hlooks⟩
  · intro hremovable
    obtain ⟨⟨-, hclean, hunlocked, key, hkey, hinactive⟩, hlooks⟩ := hremovable
    exact ⟨⟨key, hkey, (hactive key).mpr hinactive⟩, unlocked_iff.mpr hunlocked, hclean, hlooks⟩

/-- **The candidates of a plan**: the removable worktrees that look pushed. -/
theorem mem_candidates (h : planCleanup env repoRoot activeTaskIds repo.run = .ok plan) :
    ∃ main, repo.worktreeAt (env.resolve repoRoot) = some main ∧
      (∀ entry ∈ plan.candidates, ∃ worktree,
        Removable env repo (env.resolve repoRoot) activeTaskIds worktree ∧
          repo.LooksPushed main worktree ∧ entry.path = worktree.path ∧
          entry.branch = worktree.branch) ∧
      ∀ worktree, Removable env repo (env.resolve repoRoot) activeTaskIds worktree →
        repo.LooksPushed main worktree →
        ∃ entry ∈ plan.candidates, entry.path = worktree.path ∧ entry.branch = worktree.branch := by
  obtain ⟨main, found, hmain, hfound, hperm, -⟩ := planCleanup_ok h
  obtain ⟨hresults, hsources⟩ := mapM_results hfound
  refine ⟨main, hmain, ?_, ?_⟩
  · intro entry hentry
    obtain ⟨hmem, hcandidate⟩ := mem_filter.mp hentry
    obtain ⟨⟨source, i⟩, hsource, hclassify⟩ := hsources entry (hperm.mem_iff.mp hmem)
    obtain ⟨worktree, hworktree, rfl⟩ := mem_zipIdx_porcelain.mp hsource
    cases i with
    | zero =>
      cases hclassify
      simp [excluded] at hcandidate
    | succ i =>
      have hlinked : worktree ∈ repo.linked := mem_of_getElem? hworktree
      obtain ⟨hpath, hbranch, hverdict⟩ := classify_removable hmain hlinked hclassify
      obtain ⟨hremovable, hlooks⟩ := hverdict.mp (by simpa using hcandidate)
      exact ⟨worktree, hremovable, hlooks, hpath, hbranch⟩
  · intro worktree hremovable hlooks
    obtain ⟨i, hi⟩ := List.getElem?_of_mem hremovable.linked
    obtain ⟨entry, hentry, hclassify⟩ := hresults (_, i + 1)
      (mem_zipIdx_porcelain.mpr ⟨worktree, hi, rfl⟩)
    obtain ⟨hpath, hbranch, hverdict⟩ := classify_removable hmain hremovable.linked hclassify
    refine ⟨entry, mem_filter.mpr ⟨hperm.mem_iff.mpr hentry, ?_⟩, hpath, hbranch⟩
    simpa using hverdict.mpr ⟨hremovable, hlooks⟩

/-- Linked worktrees that are not plain and that may go have their commits held, unless the
revision that is asked for does not look pushed. -/
def HeldOrKept (env : Env) (repo : Repository κ) (repoRoot : String) (activeTaskIds : List Uuid) :
    Prop :=
  ∀ main, repo.worktreeAt (env.resolve repoRoot) = some main → ∀ worktree,
    Removable env repo (env.resolve repoRoot) activeTaskIds worktree → ¬ repo.Plain worktree →
    repo.LooksPushed main worktree → repo.Held worktree

theorem safePlan_iff (h : planCleanup env repoRoot activeTaskIds repo.run = .ok plan) :
    SafePlan env repo (env.resolve repoRoot) activeTaskIds plan ↔
      HeldOrKept env repo repoRoot activeTaskIds := by
  obtain ⟨main, hmain, hcandidates, hfound⟩ := mem_candidates h
  constructor
  · intro hsafe main' hmain' worktree hremovable _ hlooks
    obtain rfl : main = main' := some.inj (hmain.symm.trans hmain')
    obtain ⟨entry, hentry, hpath, -⟩ := hfound worktree hremovable hlooks
    obtain ⟨hmem, hcandidate⟩ := mem_filter.mp hentry
    obtain ⟨other, hother, hotherPath, -, hheld⟩ := hsafe entry hmem (by simpa using hcandidate)
    have hlinked : ∀ {w}, w ∈ repo.linked → w ∈ repo.worktrees := mem_cons_of_mem _
    obtain rfl := Keyed.eq_of_key repo.paths (hlinked hother.linked) (hlinked hremovable.linked)
      (hotherPath.symm.trans hpath)
    exact hheld
  · intro hheld entry hentry hcandidate
    obtain ⟨worktree, hremovable, hlooks, hpath, hbranch⟩ := hcandidates entry
      (mem_filter.mpr ⟨hentry, by simpa using hcandidate⟩)
    refine ⟨worktree, hremovable, hpath, hbranch, ?_⟩
    by_cases hplain : repo.Plain worktree
    · exact hplain.held hlooks
    · exact hheld main hmain worktree hremovable hplain hlooks

end Plan

end StudioOS.Worktrees
