import StudioOS.Library.Keyed
import StudioOS.Worktrees.Retention

/-!
# Reading — what the retention reads is what git means

The porcelain is read back as the list of worktrees, the listed branches
as their short names, and a short name stands for the reference it
shortens (`resolve_shortName`).
-/

namespace StudioOS.Worktrees

open List

variable {κ : Type}

section Names

variable {name : String}

theorem isName_unbroken (h : IsName name) : Text.Unbroken name.toList := Text.unbroken_of_forall h.2

theorem isName_trimmed (h : IsName name) : Text.Trimmed name.toList := Text.trimmed_of_forall h.2

theorem IsName.ne_nil (h : IsName name) : name.toList ≠ [] := by
  intro hnil
  exact h.1 (String.toList_eq_nil_iff.mp hnil)

theorem printed_splitlines {lines} (h : ∀ line ∈ lines, Text.Unbroken line) :
    Text.splitlines (Repository.printed lines).toList = lines := by
  rw [Repository.printed, String.toList_ofList, Text.splitlines_flatMap h]

end Names

namespace Repository

section Lookup

variable {repo : Repository κ} {commit : κ} {worktree : Worktree κ}

theorem lookup_of_mem {ref} (h : ref ∈ repo.refs) : repo.lookup ref.name = some ref.commit := by
  rw [lookup, Keyed.find?_of_mem Ref.name repo.distinct h]
  rfl

theorem exists_of_lookup {name} (h : repo.lookup name = some commit) :
    ∃ ref ∈ repo.refs, ref.name = name ∧ ref.commit = commit := by
  obtain ⟨ref, hfind, rfl⟩ := Option.map_eq_some_iff.mp h
  exact ⟨ref, List.mem_of_find?_eq_some hfind, by simpa using List.find?_some hfind, rfl⟩

theorem lookup_mem {name} (h : repo.lookup name = some commit) : commit ∈ repo.graph.nodes := by
  obtain ⟨ref, href, -, rfl⟩ := exists_of_lookup h
  exact repo.ref_mem ref href

theorem headCommit_mem (hworktree : worktree ∈ repo.worktrees)
    (h : repo.headCommit worktree = some commit) : commit ∈ repo.graph.nodes := by
  rw [headCommit] at h
  split at h
  · exact lookup_mem h
  · rename_i detached hhead
    cases h
    exact repo.head_mem worktree hworktree _ hhead

theorem worktreeAt_of_mem (hmem : worktree ∈ repo.worktrees)
    (hpresent : worktree.present = true) : repo.worktreeAt worktree.path = some worktree := by
  cases hfind : repo.worktreeAt worktree.path with
  | none =>
    have hnone := List.find?_eq_none.mp hfind worktree hmem
    simp [hpresent] at hnone
  | some other =>
    have hother := List.find?_some hfind
    simp only [decide_eq_true_eq] at hother
    rw [Keyed.eq_of_key repo.paths (List.mem_of_find?_eq_some hfind) hmem hother.1]

theorem mem_of_worktreeAt {cwd} (h : repo.worktreeAt cwd = some worktree) :
    worktree ∈ repo.worktrees ∧ worktree.path = cwd ∧ worktree.present = true := by
  rw [worktreeAt] at h
  have hfound := List.find?_some h
  simp only [decide_eq_true_eq] at hfound
  exact ⟨List.mem_of_find?_eq_some h, hfound.1, hfound.2⟩

end Lookup

section Short

variable {repo : Repository κ}

theorem complete_of_shorten {rule : Rule} {ref name : String}
    (h : rule.shorten ref = some name) : rule.complete name = ref := by
  rw [Rule.shorten] at h
  split at h
  · rename_i hfits
    obtain ⟨hfront, hback⟩ := hfits
    cases h
    obtain ⟨rest, hrest⟩ := isPrefixOf_iff_prefix.mp hfront
    have hdrop : ref.toList.drop rule.front.length = rest := by
      rw [← hrest, ← String.length_toList]
      exact drop_left
    rw [hdrop] at hback ⊢
    obtain ⟨middle, hmiddle⟩ := isSuffixOf_iff_suffix.mp hback
    have htake : rest.take (rest.length - rule.back.length) = middle := by
      rw [← hmiddle, length_append, ← String.length_toList, Nat.add_sub_cancel]
      exact take_left
    rw [htake, ← String.toList_inj, Rule.complete, String.toList_append, String.toList_append,
      String.toList_ofList, append_assoc, hmiddle, hrest]
  · cases h

theorem shortName_cases (repo : Repository κ) (ref) : repo.shortName ref = ref ∨
      ∃ rule ∈ rules, rule ≠ ⟨"", ""⟩ ∧ rule.complete (repo.shortName ref) = ref ∧
        ∀ other ∈ rules, other ≠ rule → repo.leads (repo.shortName ref) other = false := by
  rw [shortName]
  cases hfound : ((rules.drop 1).reverse.findSome? fun rule =>
      (rule.shorten ref).filter fun name =>
        rules.all fun other => other = rule ∨ ¬ repo.leads name other) with
  | none => exact .inl rfl
  | some name =>
    right
    obtain ⟨rule, hrule, hname⟩ := List.exists_of_findSome?_eq_some hfound
    obtain ⟨hshorten, hall⟩ := Option.filter_eq_some_iff.mp hname
    rw [mem_reverse] at hrule
    refine ⟨rule, mem_of_mem_drop hrule, ?_, complete_of_shorten hshorten, ?_⟩
    · intro heq
      rw [heq] at hrule
      revert hrule
      decide
    · intro other hother hne
      have hone := all_eq_true.mp hall other hother
      simpa [hne] using hone

theorem findSome?_of_unique {α β : Type} {f : α → Option β} {l : List α} {b : β} {a : α}
    (ha : a ∈ l) (hfa : f a = some b) (hother : ∀ x ∈ l, x ≠ a → f x = none) :
    l.findSome? f = some b := by
  cases hfound : l.findSome? f with
  | none => exact absurd (List.findSome?_eq_none_iff.mp hfound a ha) (by simp [hfa])
  | some c =>
    obtain ⟨x, hx, hfx⟩ := List.exists_of_findSome?_eq_some hfound
    by_cases hxa : x = a
    · rw [hxa, hfa] at hfx
      exact hfx.symm
    · rw [hother x hx hxa] at hfx
      cases hfx

/-- **A short name stands for its reference.** -/
theorem resolve_shortName {ref commit} (h : repo.lookup ref = some commit)
    (worktree : Worktree κ) : repo.resolve worktree (repo.shortName ref) = some commit := by
  rcases shortName_cases repo ref with hsame | ⟨rule, hrule, hne, hcomplete, hother⟩
  · obtain ⟨entry, hentry, rfl, -⟩ := exists_of_lookup h
    rw [hsame, resolve, if_neg (repo.ref_isName entry hentry).2, rules, List.findSome?_cons]
    have hfull : (⟨"", ""⟩ : Rule).complete entry.name = entry.name := by
      simp [Rule.complete]
    rw [hfull, h]
  · have hbare := hother ⟨"", ""⟩ (by decide) hne.symm
    have hhead : repo.shortName ref ≠ "HEAD" := by
      intro heq
      simp [leads, Rule.complete, heq] at hbare
    rw [resolve, if_neg hhead]
    refine findSome?_of_unique hrule (by rw [hcomplete, h]) fun other hmem hdiffers => ?_
    have hnone := hother other hmem hdiffers
    simp only [leads, decide_eq_false_iff_not, not_or, Option.not_isSome_iff_eq_none] at hnone
    exact hnone.2

theorem isName_shortName {ref} (h : ref ∈ repo.refs) : IsName (repo.shortName ref.name) := by
  have hname := (repo.ref_isName ref h).1
  rcases shortName_cases repo ref.name with hsame | ⟨rule, hrule, -, hcomplete, -⟩
  · rw [hsame]
    exact hname
  constructor
  · intro hempty
    rw [hempty] at hcomplete
    exact repo.ref_ne ref h rule hrule hcomplete
  · intro c hc
    refine hname.2 c ?_
    rw [← hcomplete, Rule.complete, String.toList_append, String.toList_append]
    exact mem_append_left _ (mem_append_right _ hc)

end Short

end Repository

/-! ## The list of worktrees -/

section Porcelain

variable {repo : Repository κ} {env : Env}

theorem valueOf_append {keyword text} (h : Text.Trimmed text) :
    valueOf keyword (keyword.toList ++ text) = String.ofList text := by
  rw [valueOf, ← String.length_toList, drop_left, h]

theorem branchOf_headRef (name) : branchOf (headRef name) = name := by
  have hprefix : "refs/heads/".toList.isPrefixOf (headRef name).toList = true := by
    rw [headRef, String.toList_append, isPrefixOf_iff_prefix]
    exact prefix_append _ _
  rw [branchOf, if_pos hprefix, headRef, String.toList_append, ← String.length_toList,
    drop_left, String.ofList_toList]

theorem valueOf_branch {name} (h : IsName name) :
    branchOf (valueOf "branch " ("branch refs/heads/".toList ++ name.toList)) = name := by
  have hsplit : "branch refs/heads/".toList ++ name.toList =
      "branch ".toList ++ (headRef name).toList := by
    rw [headRef, String.toList_append, ← append_assoc]
    rfl
  have htrimmed : Text.Trimmed (headRef name).toList := by
    refine Text.trimmed_of_forall fun c hc => ?_
    rw [headRef, String.toList_append] at hc
    rcases mem_append.mp hc with hc | hc
    · have hplain : ("refs/heads/".toList.all fun c => !Text.isSpace c) = true := by decide
      simpa using all_eq_true.mp hplain c hc
    · exact h.2 c hc
  rw [hsplit, valueOf_append htrimmed, String.ofList_toList, branchOf_headRef]

theorem isPrefixOf_append (keyword text : List Char) :
    keyword.isPrefixOf (keyword ++ text) = true :=
  isPrefixOf_iff_prefix.mpr (prefix_append _ _)

theorem parseLines_skip {line} (hworktree : "worktree ".toList.isPrefixOf line = false)
    (hbranch : "branch ".toList.isPrefixOf line = false) (path branch rest) :
    parseLines path branch (line :: rest) = parseLines path branch rest := by
  rw [parseLines, if_neg (by simp only [hworktree, Bool.false_eq_true, not_false_eq_true]),
    if_neg (by simp only [hbranch, Bool.false_eq_true, not_false_eq_true])]

theorem parseLines_branch {name} (h : IsName name) (path branch rest) :
    parseLines path branch (("branch refs/heads/".toList ++ name.toList) :: rest) =
      parseLines path (some name) rest := by
  have hworktree : "worktree ".toList.isPrefixOf ("branch refs/heads/".toList ++ name.toList) =
      false := rfl
  have hbranch : "branch ".toList.isPrefixOf ("branch refs/heads/".toList ++ name.toList) = true :=
    rfl
  rw [parseLines, if_neg (by rw [hworktree]; exact Bool.false_ne_true), if_pos hbranch,
    valueOf_branch h]

def headLine (head : Head κ) : List Char :=
  match head with
  | .branch name => "branch refs/heads/".toList ++ name.toList
  | .detached _ => "detached".toList

def lockLines (locked : Option String) : List (List Char) :=
  match locked with
  | none => []
  | some reason => if reason = "" then ["locked".toList] else ["locked ".toList ++ reason.toList]

theorem block_eq (worktree) : repo.block worktree =
      ["worktree ".toList ++ worktree.path.toList,
        "HEAD ".toList ++ ((repo.headCommit worktree).elim "0" repo.hash).toList,
        headLine worktree.head] ++ lockLines worktree.locked ++ [[]] := rfl

theorem parseLines_locked (locked path branch rest) :
    parseLines path branch (lockLines locked ++ [] :: rest) = parseLines path branch rest := by
  unfold lockLines
  split
  · exact parseLines_skip rfl rfl _ _ _
  · split <;> rw [singleton_append, parseLines_skip rfl rfl, parseLines_skip rfl rfl]

theorem parseLines_block
    (worktree path branch rest) : parseLines path branch (repo.block worktree ++ rest) =
      (path.toList.map fun path => (WorktreeEntry.mk path branch)) ++
        parseLines (some worktree.path) worktree.branch rest := by
  have hpath : valueOf "worktree " ("worktree ".toList ++ worktree.path.toList) = worktree.path := by
    rw [valueOf_append worktree.isPath.2, String.ofList_toList]
  rw [block_eq]
  simp only [append_assoc, cons_append, nil_append]
  rw [parseLines, if_pos (isPrefixOf_append _ _), hpath, parseLines_skip rfl rfl]
  congr 1
  cases hhead : worktree.head with
  | detached commit =>
    have hline : headLine (Head.detached commit) = "detached".toList := rfl
    have hbranch : worktree.branch = none := by rw [Worktree.branch, hhead]
    rw [hline, hbranch, parseLines_skip rfl rfl]
    exact parseLines_locked _ _ _ _
  | branch name =>
    have hline : headLine (Head.branch name : Head κ) =
        "branch refs/heads/".toList ++ name.toList := rfl
    have hbranch : worktree.branch = some name := by rw [Worktree.branch, hhead]
    rw [hline, hbranch, parseLines_branch (worktree.isName name hhead)]
    exact parseLines_locked _ _ _ _

theorem unbroken_literal {text : String}
    (h : (text.toList.all fun c => !Text.isLineBoundary c) = true) : Text.Unbroken text.toList := by
  intro c hc
  simpa using all_eq_true.mp h c hc

theorem unbroken_block (worktree) : ∀ line ∈ repo.block worktree, Text.Unbroken line := by
  have hhash : Text.Unbroken ((repo.headCommit worktree).elim "0" repo.hash).toList := by
    cases repo.headCommit worktree with
    | none =>
      have hzero : Text.Unbroken "0".toList := unbroken_literal (by decide)
      exact hzero
    | some commit => exact isName_unbroken (repo.hash_isName commit)
  intro line hline
  rw [Repository.block] at hline
  rcases mem_append.mp hline with hline | hempty
  · rcases mem_append.mp hline with hline | hlocked
    · simp only [mem_cons, not_mem_nil, or_false] at hline
      rcases hline with rfl | rfl | rfl
      · exact (unbroken_literal (by decide)).append worktree.isPath.1
      · exact (unbroken_literal (by decide)).append hhash
      · cases hhead : worktree.head with
        | branch name =>
          exact (unbroken_literal (by decide)).append (isName_unbroken (worktree.isName name hhead))
        | detached commit => exact unbroken_literal (by decide)
    · cases hreason : worktree.locked with
      | none => simp [hreason] at hlocked
      | some reason =>
        simp only [hreason] at hlocked
        split at hlocked
        · rw [mem_singleton.mp hlocked]
          exact unbroken_literal (by decide)
        · rw [mem_singleton.mp hlocked]
          exact (unbroken_literal (by decide)).append (worktree.unbroken reason hreason)
  · rw [mem_singleton.mp hempty]
    intro c hc
    cases hc

theorem unbroken_porcelain : ∀ line ∈ repo.worktrees.flatMap repo.block, Text.Unbroken line := by
  intro line hline
  obtain ⟨worktree, -, hblock⟩ := mem_flatMap.mp hline
  exact unbroken_block worktree line hblock

theorem parseWorktrees_porcelain : parseWorktrees repo.porcelain =
      repo.worktrees.map fun worktree => { path := worktree.path, branch := worktree.branch } := by
  have hparse : ∀ (worktrees : List (Worktree κ)) (path branch : Option String),
      parseLines path branch (worktrees.flatMap repo.block) =
        (path.toList.map fun path => WorktreeEntry.mk path branch) ++
          worktrees.map fun worktree => { path := worktree.path, branch := worktree.branch } := by
    intro worktrees
    induction worktrees with
    | nil =>
      intro path branch
      simp [parseLines]
    | cons worktree worktrees ih =>
      intro path branch
      rw [flatMap_cons, parseLines_block, ih]
      rfl
  rw [parseWorktrees, Repository.porcelain, printed_splitlines unbroken_porcelain, hparse]
  rfl

theorem lockedLines_skip {line} (hworktree : "worktree ".toList.isPrefixOf line = false)
    (hlocked : "locked".toList.isPrefixOf line = false) (current rest) :
    lockedLines env current (line :: rest) = lockedLines env current rest := by
  rw [lockedLines, if_neg (by simp only [hworktree, Bool.false_eq_true, not_false_eq_true]),
    if_neg (by simp only [hlocked, Bool.false_eq_true, not_false_eq_true])]

theorem lockedLines_locked (more current rest) :
    lockedLines env current (("locked".toList ++ more) :: rest) =
      current.toList.map env.normalized ++ lockedLines env current rest := by
  have hworktree : "worktree ".toList.isPrefixOf ("locked".toList ++ more) = false := rfl
  rw [lockedLines, if_neg (by rw [hworktree]; exact Bool.false_ne_true),
    if_pos (isPrefixOf_append _ _)]

theorem lockedLines_block
    (worktree current rest) : lockedLines env current (repo.block worktree ++ rest) =
      (if worktree.locked.isSome then [env.normalized worktree.path] else []) ++
        lockedLines env (some worktree.path) rest := by
  have hpath : valueOf "worktree " ("worktree ".toList ++ worktree.path.toList) = worktree.path := by
    rw [valueOf_append worktree.isPath.2, String.ofList_toList]
  have hhead : ∀ line rest, line = "detached".toList ∨
      (∃ name : String, line = "branch refs/heads/".toList ++ name.toList) →
      lockedLines env (some worktree.path) (line :: rest) =
        lockedLines env (some worktree.path) rest := by
    intro line rest hline
    rcases hline with rfl | ⟨name, rfl⟩ <;> exact lockedLines_skip rfl rfl _ _
  rw [Repository.block]
  simp only [append_assoc, cons_append, nil_append]
  rw [lockedLines, if_pos (isPrefixOf_append _ _), hpath, lockedLines_skip rfl rfl, hhead]
  · cases hreason : worktree.locked with
    | none => exact lockedLines_skip rfl rfl _ _
    | some reason =>
      by_cases hempty : reason = ""
      · simp only [hempty, if_true, singleton_append, Option.isSome_some]
        have hline := @lockedLines_locked env [] (some worktree.path) ([] :: rest)
        rw [append_nil] at hline
        rw [hline, lockedLines_skip rfl rfl]
        rfl
      · simp only [hempty, if_false, if_true, singleton_append, Option.isSome_some]
        have hline := @lockedLines_locked env (" ".toList ++ reason.toList)
          (some worktree.path) ([] :: rest)
        rw [← append_assoc] at hline
        refine hline.trans ?_
        rw [lockedLines_skip rfl rfl]
        rfl
  · cases worktree.head with
    | branch name => exact .inr ⟨name, rfl⟩
    | detached commit => exact .inl rfl

theorem lockedPaths_porcelain : lockedPaths env repo.porcelain =
      (repo.worktrees.filter fun worktree => worktree.locked.isSome).map fun worktree =>
        env.normalized worktree.path := by
  have hlocked : ∀ (worktrees : List (Worktree κ)) (current : Option String),
      lockedLines env current (worktrees.flatMap repo.block) =
        (worktrees.filter fun worktree => worktree.locked.isSome).map fun worktree =>
          env.normalized worktree.path := by
    intro worktrees
    induction worktrees with
    | nil =>
      intro current
      rfl
    | cons worktree worktrees ih =>
      intro current
      rw [flatMap_cons, lockedLines_block, ih, filter_cons]
      split <;> rfl
  rw [lockedPaths, Repository.porcelain, printed_splitlines unbroken_porcelain, hlocked]

end Porcelain

end StudioOS.Worktrees
