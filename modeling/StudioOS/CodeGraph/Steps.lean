import StudioOS.CodeGraph.Model

/-!
# Code graph — Steps

What a step can do, guards included: a step of a repository replaces its
record, and what else it changes.
-/

namespace StudioOS.CodeGraph

open Option

theorem building_of_pump {D G : Type} {repo : Repo D G} {phase : Phase D G}
    (hpump : repo.pump = some phase) (hholds : phase.holds = true) : repo.building = true := by
  rw [Repo.building, hpump]
  exact hholds

section Steps

variable {ι ω D G : Type} [DecidableEq ι] [DecidableEq ω] [DecidableEq D] (env : Env ι ω D G)

/-- **What a step can do.** -/
inductive Stepped (s : State ι ω D G) : Act ι ω → State ι ω D G → Prop where
  | ticked (n) : Stepped s (.tick n) { s with clock := s.clock + n }
  | wrote (i path blob) :
      Stepped s (.write i path blob)
        { s with tree := Function.update s.tree i (Tree.write (s.tree i) path blob) }
  | configures (w) :
      Stepped s (.configure w)
        { s with configuring := Function.update s.configuring w true }
  | indexed (w) :
      Stepped s (.index w)
        { s.makeIndex env w with configuring := Function.update s.configuring w false }
  | dropped (i written repo) (hrepo : s.repos i = some repo) (orphans disk)
      (hdisk : disk = s.disk ∨ ∃ snapshot, repo.pump = some (.saving snapshot) ∧
        disk = Function.update s.disk i (some snapshot)) :
      Stepped s (.drop i written)
        { s with
          repos := Function.update s.repos i none
          owed := Function.update s.owed i .nothing
          orphans := orphans
          disk := disk }
  | loaded (i readable) (hlock : s.configuring (env.workspace i) = true)
      (hnone : s.repos i = none) :
      Stepped s (.load i readable)
        (s.setRepo i (if readable then .loaded (s.disk i) false else .loaded none true))
  | refreshed (i repo) (hrepo : s.repos i = some repo) :
      Stepped s (.refresh i) (s.setRepo i (repo.schedule s.clock 0 repo.corrupt))
  | reindexed (i full repo) (hrepo : s.repos i = some repo) :
      Stepped s (.reindex i full)
        { s.setRepo i (repo.schedule s.clock 0 full) with
          owed := Function.update s.owed i
            { s.owed i with
              full := (s.owed i).full || full
              check := (s.owed i).check || !full } }
  | gitBuilding (i repo) (hrepo : s.repos i = some repo) (hbuilding : repo.building = true) :
      Stepped s (.gitChange i)
        (s.setRepo i { repo with rerun := true, deadline := s.clock + env.debounce })
  | checks (i repo) (hrepo : s.repos i = some repo) (a)
      (ha : a = .gitChange i ∨ a = .checkStart i) :
      Stepped s a (s.setRepo i { repo with checks := repo.checks ++ [.looking] })
  | gitScheduled (i repo) (hrepo : s.repos i = some repo) :
      Stepped s (.gitSchedule i) (s.setRepo i (repo.schedule s.clock env.debounce false))
  | looked (i k present repo) (hrepo : s.repos i = some repo) (checks) :
      Stepped s (.checkLook i k present)
        (s.setRepo i { repo with missing := !present, checks := checks })
  | lookedOpaque (i k present repo) (hrepo : s.repos i = some repo) (checks snapshot)
      (hsnapshot : repo.snapshot = some snapshot) (hnofiles : snapshot.fingerprint = none) :
      Stepped s (.checkLook i k present)
        (s.setRepo i { repo with missing := !present, checks := checks, stale := false })
  | checkedFiles (i k readable repo) (hrepo : s.repos i = some repo) (checks) :
      Stepped s (.checkRead i k readable) (s.setRepo i { repo with checks := checks })
  | checked (i k repo) (hrepo : s.repos i = some repo) (fingerprint files)
      (hcheck : repo.checks[k]? = some (.answered fingerprint files)) :
      Stepped s (.checkEnd i k)
        (s.setRepo i ({ repo with checks := repo.checks.eraseIdx k }.answer env fingerprint files))
  | started (i repo) (hrepo : s.repos i = some repo) (hpump : repo.pump = some .pending) :
      Stepped s (.pump i) (s.start i { repo with full := false, rerun := false } repo.full)
  | waits (i repo) (hrepo : s.repos i = some repo) (hpump : repo.pump = some .pending) :
      Stepped s (.pump i)
        (s.setRepo i
          { repo with full := false, rerun := false, pump := some (.waiting repo.full) })
  | acquired (i repo) (hrepo : s.repos i = some repo) (full)
      (hpump : repo.pump = some (.waiting full)) : Stepped s (.acquire i) (s.start i repo full)
  | abandoned (i absent repo) (hrepo : s.repos i = some repo) (full)
      (hpump : repo.pump = some (.reading full)) (missing) :
      Stepped s (.abandon i absent) (s.finish i { repo with missing := missing })
  | filesRead (i readable repo) (hrepo : s.repos i = some repo) (full)
      (hpump : repo.pump = some (.reading full)) (files)
      (hfiles : ∀ tree, files = some tree → tree = s.tree i) :
      Stepped s (.read i readable)
        ({ s with owed := Function.update s.owed i { s.owed i with unread := false } }.readFiles
          env i { repo with missing := false } full files)
  | saw (i path repo) (hrepo : s.repos i = some repo) (files seen)
      (hpump : repo.pump = some (.building files seen)) :
      Stepped s (.see i path)
        (s.setRepo i
          { repo with pump := some (.building files (Tree.reread seen (s.tree i) path)) })
  | builds (i repo) (hrepo : s.repos i = some repo) (files seen)
      (hpump : repo.pump = some (.building files seen)) :
      Stepped s (.built i true)
        (s.setRepo i
          { repo with
            pump := some (.saving
              { fingerprint := files.map env.digest, graph := env.build seen }) })
  | fails (i a) (ha : a = .built i false ∨ a = .saved i false) (repo)
      (hrepo : s.repos i = some repo) (hbuilding : repo.building = true)
      (hread : ∀ full, repo.pump ≠ some (.reading full)) :
      Stepped s a (s.finish i { repo with failed := true })
  | installed (i repo) (hrepo : s.repos i = some repo) (snapshot)
      (hpump : repo.pump = some (.saving snapshot)) :
      Stepped s (.saved i true)
        ({ s.finish i
            { repo with snapshot := some snapshot, corrupt := false, stale := false,
                        failed := false } with
          disk := Function.update s.disk i (some snapshot) }.makeIndex env (env.workspace i))
  | unwound (orphans held) :
      Stepped s .unwind { s with orphans := orphans, held := held }

variable {env}

theorem step_cases {s t a} (h : step env s a = some t) : Stepped env s a t := by
  cases a with
  | tick n =>
    cases h
    exact .ticked n
  | write i path blob =>
    cases h
    exact .wrote i path blob
  | configure w =>
    simp only [step] at h
    split at h
    · cases h
    · cases h
      exact .configures w
  | index w =>
    simp only [step] at h
    split at h
    · cases h
      exact .indexed w
    · cases h
  | unwind =>
    simp only [step] at h
    split at h
    · cases h
      exact .unwound _ _
    · cases h
  | drop i written =>
    simp only [step, map_eq_some_iff] at h
    obtain ⟨repo, hrepo, rfl⟩ := h
    split
    · rename_i snapshot hpump
      split
      · exact .dropped i written repo hrepo _ _ (.inr ⟨snapshot, hpump, rfl⟩)
      · exact .dropped i written repo hrepo _ _ (.inl rfl)
    · exact .dropped i written repo hrepo _ _ (.inl rfl)
  | load i readable =>
    simp only [step] at h
    split at h
    · rename_i hlock
      simp only [Bool.and_eq_true, isNone_iff_eq_none] at hlock
      cases h
      exact .loaded i readable hlock.1 hlock.2
    · cases h
  | refresh i =>
    simp only [step, bind_eq_some_iff] at h
    obtain ⟨repo, hrepo, h⟩ := h
    split at h
    · cases h
      exact .refreshed i repo hrepo
    · cases h
  | reindex i full =>
    simp only [step, map_eq_some_iff] at h
    obtain ⟨repo, hrepo, rfl⟩ := h
    exact .reindexed i full repo hrepo
  | gitChange i =>
    simp only [step, map_eq_some_iff] at h
    obtain ⟨repo, hrepo, rfl⟩ := h
    split
    · rename_i hbuilding
      exact .gitBuilding i repo hrepo hbuilding
    · exact .checks i repo hrepo _ (.inl rfl)
  | gitSchedule i =>
    simp only [step, bind_eq_some_iff] at h
    obtain ⟨repo, hrepo, h⟩ := h
    split at h
    · cases h
      exact .gitScheduled i repo hrepo
    · cases h
  | checkStart i =>
    simp only [step, bind_eq_some_iff] at h
    obtain ⟨repo, hrepo, h⟩ := h
    split at h
    · cases h
    · cases h
      exact .checks i repo hrepo _ (.inr rfl)
  | checkLook i k present =>
    simp only [step, bind_eq_some_iff] at h
    obtain ⟨repo, hrepo, h⟩ := h
    split at h
    · split at h
      · split at h
        · cases h
          exact .looked i k present repo hrepo _
        rename_i snapshot hsnapshot
        split at h
        · rename_i hnofiles
          cases h
          exact .lookedOpaque i k present repo hrepo _ snapshot hsnapshot hnofiles
        · cases h
          exact .looked i k present repo hrepo _
      · cases h
        exact .looked i k present repo hrepo _
    · cases h
  | checkRead i k readable =>
    simp only [step, bind_eq_some_iff] at h
    obtain ⟨repo, hrepo, h⟩ := h
    split at h
    · cases h
      exact .checkedFiles i k readable repo hrepo _
    · cases h
  | checkEnd i k =>
    simp only [step, bind_eq_some_iff] at h
    obtain ⟨repo, hrepo, h⟩ := h
    split at h
    · rename_i fingerprint files hcheck
      cases h
      exact .checked i k repo hrepo fingerprint files hcheck
    · cases h
  | pump i =>
    simp only [step, bind_eq_some_iff] at h
    obtain ⟨repo, hrepo, h⟩ := h
    split at h
    · rename_i hpump
      split at h
      · cases h
      · split at h
        · cases h
          exact .started i repo hrepo hpump
        · cases h
          exact .waits i repo hrepo hpump
    · cases h
  | acquire i =>
    simp only [step, bind_eq_some_iff] at h
    obtain ⟨repo, hrepo, h⟩ := h
    split at h
    · rename_i full hpump
      split at h
      · cases h
        exact .acquired i repo hrepo full hpump
      · cases h
    · cases h
  | abandon i missing =>
    simp only [step, bind_eq_some_iff] at h
    obtain ⟨repo, hrepo, h⟩ := h
    split at h
    · rename_i full hpump
      cases h
      split
      · exact .abandoned i missing repo hrepo full hpump true
      · exact .abandoned i missing repo hrepo full hpump repo.missing
    · cases h
  | read i readable =>
    simp only [step, bind_eq_some_iff] at h
    obtain ⟨repo, hrepo, h⟩ := h
    split at h
    · rename_i full hpump
      cases h
      refine .filesRead i readable repo hrepo full hpump _ ?_
      intro tree htree
      split at htree
      · exact (some.inj htree).symm
      · cases htree
    · cases h
  | see i path =>
    simp only [step, bind_eq_some_iff] at h
    obtain ⟨repo, hrepo, h⟩ := h
    split at h
    · rename_i files seen hpump
      cases h
      exact .saw i path repo hrepo files seen hpump
    · cases h
  | built i ok =>
    simp only [step, bind_eq_some_iff] at h
    obtain ⟨repo, hrepo, h⟩ := h
    split at h
    · rename_i files seen hpump
      cases ok with
      | true =>
        cases h
        exact .builds i repo hrepo files seen hpump
      | false =>
        cases h
        refine .fails i _ (.inl rfl) repo hrepo (building_of_pump hpump rfl) ?_
        intro full hreading
        rw [hpump] at hreading
        cases hreading
    · cases h
  | saved i ok =>
    simp only [step, bind_eq_some_iff] at h
    obtain ⟨repo, hrepo, h⟩ := h
    split at h
    · rename_i snapshot hpump
      cases ok with
      | true =>
        cases h
        exact .installed i repo hrepo snapshot hpump
      | false =>
        cases h
        refine .fails i _ (.inr rfl) repo hrepo (building_of_pump hpump rfl) ?_
        intro full hreading
        rw [hpump] at hreading
        cases hreading
    · cases h

end Steps

/-- Two repositories of one workspace and one slot; digests tell trees
apart, and the graph shows the tree. -/
def sampleEnv : Env (Fin 2) Unit Tree Tree :=
  { workspace := fun _ => ()
    slots := 1
    debounce := 0
    digest := id
    build := id
    empty := ∅ }

/-- Both repositories are configured, without a snapshot. -/
def configureRun : List (Act (Fin 2) Unit) :=
  .configure () :: (List.finRange 2).map (fun repo => .load repo true) ++ [.index ()]

def isIdle (s : State (Fin 2) Unit Tree Tree) : Bool :=
  (List.finRange 2).all (fun i => (s.repos i).all fun repo => repo.pump.isNone) &&
    !s.configuring ()

theorem idle_of_isIdle {s} (h : isIdle s = true) : s.Idle := by
  simp only [isIdle, Bool.and_eq_true, List.all_eq_true, all_eq_true,
    isNone_iff_eq_none, Bool.not_eq_true'] at h
  refine ⟨?_, fun _ => h.2⟩
  intro i
  exact h.1 i (List.mem_finRange i)

end StudioOS.CodeGraph
