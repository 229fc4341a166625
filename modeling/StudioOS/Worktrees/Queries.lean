import Mathlib
import StudioOS.Worktrees.Reading

/-!
# Queries — what the answers of git say about the history

`_is_unpushed` composes three commands. With an upstream its range is
empty when the upstream covers the revision; without one, `--not` toggles,
so every second of the other branches stands on the side of the revision
(`isUnpushed_run`).
-/

namespace StudioOS.Worktrees

open List

variable {κ : Type}

/-- The first, the third, the fifth and so on. -/
def everyOther {α : Type} : List α → List α
  | [] => []
  | [a] => [a]
  | a :: _ :: rest => a :: everyOther rest

@[simp] theorem everyOther_cons {α : Type} (a : α) (rest) :
    everyOther (a :: rest) = a :: everyOther rest.tail := by
  cases rest <;> rfl

theorem everyOther_subset {α : Type} {l : List α} {a : α} (h : a ∈ everyOther l) : a ∈ l := by
  induction l using everyOther.induct with
  | case1 => cases h
  | case2 b => exact h
  | case3 b c rest ih =>
    rcases mem_cons.mp h with rfl | h
    · exact mem_cons_self
    · exact .tail _ (.tail _ (ih h))

/-- Where commits end up that each stand behind a `--not` of their own. -/
def sides (negated : Bool) : List κ → Ends κ
  | [] => Ends.none
  | commit :: rest => (sides (!negated) rest).add (!negated) [commit]

theorem sides_eq (commits : List κ) : sides true commits =
        { included := everyOther commits, excluded := everyOther commits.tail } ∧
      sides false commits =
        { included := everyOther commits.tail, excluded := everyOther commits } := by
  induction commits with
  | nil => exact ⟨rfl, rfl⟩
  | cons commit rest ih =>
    obtain ⟨htrue, hfalse⟩ := ih
    constructor
    · simp [sides, hfalse, Ends.add]
    · simp [sides, htrue, Ends.add]

namespace Repository

variable {repo : Repository κ} {root : Worktree κ}

theorem ends_excluding {refs : List (Ref κ)} (h : ∀ ref ∈ refs, ref ∈ repo.refs) (negated) :
    repo.ends root negated (excluding (refs.map fun ref => repo.shortName ref.name)) =
      some (sides negated (refs.map Ref.commit)) := by
  induction refs generalizing negated with
  | nil => rfl
  | cons ref refs ih =>
    have href := resolve_shortName (lookup_of_mem (h ref (by simp))) root
    have hrest := ih (fun other hother => h other (.tail _ hother)) (!negated)
    rw [excluding] at hrest
    simp [excluding, ends, href, hrest, sides]

end Repository

/-! ## The commands -/

/-- The other branches, as the names are compared. -/
def Repository.otherHeads (repo : Repository κ) (branch : Option String) : List (Ref κ) :=
  repo.heads.filter fun ref => some (repo.shortName ref.name) ≠ branch

/-- The revision that is asked for is covered, by its upstream, or else by the remotes with every
second of the other branches; the rest of the branches stand on the side of the revision. -/
def Repository.LooksPushed (repo : Repository κ) (root worktree : Worktree κ) : Prop :=
  match worktree.branch.bind repo.upstreamOf with
  | some ref => ∃ base tip, repo.lookup ref = some base ∧
      repo.resolve worktree (revOf worktree.branch) = some tip ∧ repo.graph.Covered [tip] [base]
  | none => ∃ tip, repo.resolve root (revOf worktree.branch) = some tip ∧
      repo.graph.Covered
        (tip :: everyOther ((repo.otherHeads worktree.branch).map Ref.commit))
        (repo.remotes.map Ref.commit ++
          everyOther (((repo.otherHeads worktree.branch).map Ref.commit).tail))

section Commands

variable [DecidableEq κ] {repo : Repository κ} {worktree root : Worktree κ} {path : String}

theorem isDirty_run (hat : repo.worktreeAt path = some worktree) :
    isDirty repo.run path = .ok (decide (Text.strip worktree.status.toList ≠ [])) := by
  have hrun : runGit repo.run .status path = .ok (.ok worktree.status) := by
    simp [runGit, Repository.run, hat]
  rw [isDirty, hrun]
  show Except.ok _ = _
  simp [GitResult.ok]

theorem localBranches_run (hat : repo.worktreeAt path = some worktree) :
    localBranches repo.run path = .ok (repo.heads.map fun ref => repo.shortName ref.name) := by
  have hrun : runGit repo.run .forEachHead path = .ok (.ok (Repository.printed
      (repo.heads.map fun ref => (repo.shortName ref.name).toList))) := by
    simp [runGit, Repository.run, hat]
  have hname : ∀ ref ∈ repo.heads, IsName (repo.shortName ref.name) :=
    fun ref href => Repository.isName_shortName (mem_filter.mp href).1
  have hlines : Text.splitlines (Repository.printed
      (repo.heads.map fun ref => (repo.shortName ref.name).toList)).toList =
        repo.heads.map fun ref => (repo.shortName ref.name).toList := by
    refine printed_splitlines fun line hline => ?_
    obtain ⟨ref, href, rfl⟩ := mem_map.mp hline
    exact isName_unbroken (hname ref href)
  have hstrip : (repo.heads.map fun ref => (repo.shortName ref.name).toList).map Text.strip =
      repo.heads.map fun ref => (repo.shortName ref.name).toList := by
    rw [map_map]
    refine map_congr_left fun ref href => ?_
    exact isName_trimmed (hname ref href)
  have hfilter : ((repo.heads.map fun ref => (repo.shortName ref.name).toList).filter
      fun line => line ≠ []) = repo.heads.map fun ref => (repo.shortName ref.name).toList := by
    refine filter_eq_self.mpr fun line hline => ?_
    obtain ⟨ref, href, rfl⟩ := mem_map.mp hline
    simpa using (hname ref href).ne_nil
  rw [localBranches, hrun]
  show Except.ok _ = _
  rw [if_neg (by simp [GitResult.ok])]
  simp only [GitResult.ok]
  rw [hlines, hstrip, hfilter, map_map]
  congr 1
  refine map_congr_left fun ref _ => ?_
  exact String.ofList_toList

theorem isSpace_of_isDigit {c} (h : c.isDigit = true) : Text.isSpace c = false := by
  have hrange : 48 ≤ c.toNat ∧ c.toNat ≤ 57 := by
    simp only [Char.isDigit, Bool.and_eq_true, decide_eq_true_eq] at h
    exact h
  obtain ⟨hlow, hhigh⟩ := hrange
  simp only [Text.isSpace, Bool.or_eq_false_iff, Bool.and_eq_false_iff, decide_eq_false_iff_not,
    beq_eq_false_iff_ne]
  omega

theorem toInt?_line (n : Nat) :
    (String.ofList (Text.strip (toString n ++ "\n").toList)).toInt? = some (n : Int) := by
  have hdigits : ∀ c ∈ (toString n).toList, Text.isSpace c = false := by
    intro c hc
    rw [show toString n = Nat.repr n from rfl, Nat.repr, String.toList_ofList] at hc
    exact isSpace_of_isDigit (Nat.isDigit_of_mem_toDigits (by decide) (by decide) hc)
  have hline : (toString n ++ "\n").toList = (toString n).toList ++ ['\n'] := by
    rw [String.toList_append]
    rfl
  rw [hline, Text.strip_newline hdigits, String.ofList_toList]
  exact Nat.toInt?_repr n

theorem count_run (hat : repo.worktreeAt path = some worktree) (args) :
    count repo.run args path = .ok ((repo.ends worktree false args).map fun found =>
      (repo.graph.countRange found.included found.excluded : Int)) := by
  cases hends : repo.ends worktree false args with
  | none =>
    have hrun : runGit repo.run (.revListCount args) path =
        .ok (.fatal "fatal: ambiguous argument") := by
      simp [runGit, Repository.run, hat, hends]
    rw [count, hrun]
    rfl
  | some found =>
    have hrun : runGit repo.run (.revListCount args) path = .ok (.ok (toString
        (repo.graph.countRange found.included found.excluded) ++ "\n")) := by
      simp [runGit, Repository.run, hat, hends]
    rw [count, hrun]
    show Except.ok _ = _
    rw [if_neg (by simp [GitResult.ok])]
    simp only [GitResult.ok, Option.map_some, toInt?_line]

omit [DecidableEq κ] in
theorem revOf_branch (worktree : Worktree κ) : revOf worktree.branch = match worktree.head with
    | .branch name => name
    | .detached _ => "HEAD" := by
  cases hhead : worktree.head with
  | branch name =>
    have hname : name ≠ "" := (worktree.isName name hhead).1
    simp [revOf, Worktree.branch, hhead, Option.filter, hname]
  | detached commit => simp [revOf, Worktree.branch, hhead]

theorem upstream_run (hat : repo.worktreeAt path = some worktree) :
    runGit repo.run (.upstreamOf (revOf worktree.branch)) path =
      match worktree.branch.bind repo.upstreamOf with
      | none => .ok (.fatal "fatal: no upstream configured")
      | some ref => .ok (.ok (repo.shortName ref ++ "\n")) := by
  have hbranch : (if revOf worktree.branch = "HEAD" then worktree.branch
      else some (revOf worktree.branch)) = worktree.branch := by
    rw [revOf_branch]
    cases hhead : worktree.head with
    | branch | detached => simp [Worktree.branch, hhead]
  simp only [runGit, Repository.run, hat]
  rw [hbranch]
  cases worktree.branch.bind repo.upstreamOf <;> rfl

omit [DecidableEq κ] in
theorem resolve_mem {name commit} (hworktree : worktree ∈ repo.worktrees)
    (h : repo.resolve worktree name = some commit) : commit ∈ repo.graph.nodes := by
  rw [Repository.resolve] at h
  split at h
  · exact Repository.headCommit_mem hworktree h
  · obtain ⟨rule, -, hlookup⟩ := List.exists_of_findSome?_eq_some h
    exact Repository.lookup_mem hlookup

theorem ahead_upstream (hat : repo.worktreeAt path = some worktree) {ref base}
    (hbase : repo.lookup ref = some base) (rootPath) :
    ahead repo.run rootPath path worktree.branch (.ok (repo.shortName ref ++ "\n")) =
      .ok ((repo.resolve worktree (revOf worktree.branch)).map fun tip =>
        (repo.graph.countRange [tip] [base] : Int)) := by
  obtain ⟨entry, hentry, rfl, -⟩ := Repository.exists_of_lookup hbase
  have hname := Repository.isName_shortName hentry
  have hline : Text.strip (repo.shortName entry.name ++ "\n").toList =
      (repo.shortName entry.name).toList := by
    rw [String.toList_append]
    exact Text.strip_newline hname.2
  simp only [ahead, GitResult.ok, hline]
  rw [if_pos ⟨trivial, hname.ne_nil⟩, String.ofList_toList, count_run hat]
  simp only [Repository.ends, Repository.resolve_shortName hbase]
  cases repo.resolve worktree (revOf worktree.branch) <;> rfl

theorem ahead_others {rootPath} (hroot : repo.worktreeAt rootPath = some root) (branch) (message) :
    ahead repo.run rootPath path branch (.fatal message) =
      .ok ((repo.resolve root (revOf branch)).map fun tip => (repo.graph.countRange
          (tip :: everyOther ((repo.otherHeads branch).map Ref.commit))
          (repo.remotes.map Ref.commit ++
            everyOther ((repo.otherHeads branch).map Ref.commit).tail) : Int)) := by
  have hothers : ((repo.heads.map fun ref => repo.shortName ref.name).filter
      fun other => some other ≠ branch) =
        (repo.otherHeads branch).map fun ref => repo.shortName ref.name := by
    rw [filter_map]
    rfl
  have hrefs : ∀ ref ∈ repo.otherHeads branch, ref ∈ repo.refs :=
    fun ref href => (mem_filter.mp (mem_filter.mp href).1).1
  have hfails : ¬ ((GitResult.fatal message).returncode = 0 ∧
      Text.strip (GitResult.fatal message).stdout.toList ≠ []) := by
    simp [GitResult.fatal]
  simp only [ahead]
  rw [if_neg hfails, localBranches_run hroot]
  show count repo.run (.rev (revOf branch) :: .not :: .remotes :: excluding _) rootPath = _
  rw [hothers, count_run hroot]
  simp only [Repository.ends, Bool.not_false, Repository.ends_excluding hrefs, (sides_eq _).1]
  cases repo.resolve root (revOf branch) <;> rfl

/-- **What `_is_unpushed` finds out** about a worktree that is there. -/
theorem isUnpushed_run {rootPath} (hroot : repo.worktreeAt rootPath = some root)
    (hat : repo.worktreeAt path = some worktree) :
    ∃ unpushed, isUnpushed repo.run rootPath path worktree.branch = .ok unpushed ∧
      (unpushed = false ↔ repo.LooksPushed root worktree) := by
  have hmem := (Repository.mem_of_worktreeAt hat).1
  have hrootMem := (Repository.mem_of_worktreeAt hroot).1
  have hothers : ∀ commit ∈ everyOther ((repo.otherHeads worktree.branch).map Ref.commit),
      commit ∈ repo.graph.nodes := by
    intro commit hcommit
    obtain ⟨ref, href, rfl⟩ := mem_map.mp (everyOther_subset hcommit)
    exact repo.ref_mem ref (mem_filter.mp (mem_filter.mp href).1).1
  rw [isUnpushed, upstream_run hat, Repository.LooksPushed]
  cases hup : worktree.branch.bind repo.upstreamOf with
  | some ref =>
    obtain ⟨name, -, hupstream⟩ := Option.bind_eq_some_iff.mp hup
    obtain ⟨base, hbase⟩ := Option.isSome_iff_exists.mp (Option.filter_eq_some_iff.mp hupstream).2
    simp only
    show ∃ unpushed, (ahead repo.run rootPath path worktree.branch _ >>= _) = _ ∧ _
    rw [ahead_upstream hat hbase]
    refine ⟨_, rfl, ?_⟩
    cases htip : repo.resolve worktree (revOf worktree.branch) with
    | none => simp
    | some tip =>
      have hzero := @Ancestry.countRange_eq_zero _ repo.graph _ [tip] [base] (by
        intro node hnode
        rw [mem_singleton.mp hnode]
        exact resolve_mem hmem htip)
      simp [hbase, ← hzero]
  | none =>
    simp only
    show ∃ unpushed, (ahead repo.run rootPath path worktree.branch _ >>= _) = _ ∧ _
    rw [ahead_others hroot]
    refine ⟨_, rfl, ?_⟩
    cases htip : repo.resolve root (revOf worktree.branch) with
    | none => simp
    | some tip =>
      have hzero := @Ancestry.countRange_eq_zero _ repo.graph _
        (tip :: everyOther ((repo.otherHeads worktree.branch).map Ref.commit))
        (repo.remotes.map Ref.commit ++
          everyOther (((repo.otherHeads worktree.branch).map Ref.commit).tail)) (by
        intro node hnode
        rcases mem_cons.mp hnode with rfl | hnode
        · exact resolve_mem hrootMem htip
        · exact hothers node hnode)
      simpa using hzero

end Commands

end StudioOS.Worktrees
