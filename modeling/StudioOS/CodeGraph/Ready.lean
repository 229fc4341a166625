import StudioOS.Base
import StudioOS.CodeGraph.Steps

/-!
# Code graph — Ready

What a ready status says of the served graph. A snapshot is SOUND if its graph
is the one of the files its digest was taken of.
-/

namespace StudioOS.CodeGraph

open Option Function Runs

section Sound

variable {ι ω D G : Type} (env : Env ι ω D G)

/-- The graph is the one of the files with the digest. -/
def Snapshot.Sound (snapshot : Snapshot D G) : Prop :=
  ∀ digest, snapshot.fingerprint = some digest →
    ∃ tree, env.digest tree = digest ∧ snapshot.graph = env.graphOf tree

/-- What a pump holds: the provider is asked where there are files. -/
def Phase.Sound : Phase D G → Prop
  | .building files _ => files ≠ some ∅
  | .saving snapshot => snapshot.Sound env
  | _ => True

/-- What the record of a repository tells of its files. -/
structure RepoSound (repo : Repo D G) : Prop where
  snapshot : ∀ snapshot, repo.snapshot = some snapshot → snapshot.Sound env
  pump : ∀ phase, repo.pump = some phase → phase.Sound env
  /-- A repository that is not stale has the digest of its last check. -/
  checked : ∀ tree, repo.checkedOn = some tree → repo.stale = false →
    ∀ snapshot, repo.snapshot = some snapshot → ∀ digest, snapshot.fingerprint = some digest →
      env.digest tree = digest

structure AllSound (s : State ι ω D G) : Prop where
  disk : ∀ i snapshot, s.disk i = some snapshot → snapshot.Sound env
  repo : ∀ i repo, s.repos i = some repo → RepoSound env repo
  served : ∀ i repo, s.repos i = some repo → s.configuring (env.workspace i) = false →
    s.served i = repo.snapshot.map Snapshot.graph

variable {env} {repo repo' : Repo D G} {i : ι}

theorem allSound_initial (tree) : AllSound env (State.initial tree : State ι ω D G) where
  disk i snapshot h := by cases h
  repo i repo h := by cases h
  served i repo h := by cases h

theorem RepoSound.congr (h : RepoSound env repo) (hsnapshot : repo'.snapshot = repo.snapshot)
    (hstale : repo'.stale = repo.stale) (hchecked : repo'.checkedOn = repo.checkedOn)
    (hpump : ∀ phase, repo'.pump = some phase → phase.holds = true → repo.pump = some phase) :
    RepoSound env repo' where
  snapshot := hsnapshot ▸ h.snapshot
  pump phase hphase := by
    by_cases hholds : phase.holds = true
    · exact h.pump phase (hpump phase hphase hholds)
    cases phase with
    | pending | waiting | reading => trivial
    | building | saving => exact absurd rfl hholds
  checked := by
    rw [hsnapshot, hstale, hchecked]
    exact h.checked

theorem RepoSound.finish (h : ∀ snapshot, repo.snapshot = some snapshot → snapshot.Sound env) :
    RepoSound env repo.finish where
  snapshot := h
  pump phase hphase := by
    simp only [Repo.finish] at hphase
    split at hphase
    · cases hphase
      trivial
    · cases hphase
  checked tree hchecked := by cases hchecked

theorem schedule_pump (repo : Repo D G) (clock delay full) :
    ∀ phase, (repo.schedule clock delay full).pump = some phase → phase.holds = true →
      repo.pump = some phase := by
  intro phase hphase hholds
  by_cases hbuilding : repo.building = true
  · rw [Repo.schedule, if_pos hbuilding] at hphase
    exact hphase
  · rw [Repo.schedule, if_neg hbuilding] at hphase
    cases hphase
    cases hholds

theorem schedule_rest (repo : Repo D G) (clock delay full) :
    (repo.schedule clock delay full).snapshot = repo.snapshot ∧
      (repo.schedule clock delay full).stale = repo.stale ∧
      (repo.schedule clock delay full).checkedOn = repo.checkedOn := by
  by_cases hbuilding : repo.building = true
  · rw [Repo.schedule, if_pos hbuilding]
    exact ⟨rfl, rfl, rfl⟩
  · rw [Repo.schedule, if_neg hbuilding]
    exact ⟨rfl, rfl, rfl⟩

theorem RepoSound.schedule (h : RepoSound env repo) (clock delay full) :
    RepoSound env (repo.schedule clock delay full) := by
  obtain ⟨hsnapshot, hstale, hchecked⟩ := schedule_rest repo clock delay full
  exact h.congr hsnapshot hstale hchecked (schedule_pump repo clock delay full)

theorem AllSound.same {s t} (h : AllSound env s) (hdisk : t.disk = s.disk)
    (hrepos : t.repos = s.repos)
    (hserved : t.served = s.served) (hconfiguring : ∀ i, t.configuring (env.workspace i) = false →
      s.configuring (env.workspace i) = false) : AllSound env t where
  disk := hdisk ▸ h.disk
  repo := hrepos ▸ h.repo
  served i repo hrepo hlock := by
    rw [hserved]
    rw [hrepos] at hrepo
    exact h.served i repo hrepo (hconfiguring i hlock)

variable [DecidableEq ι]

theorem AllSound.setRepo {s} (h : AllSound env s) (hrepo : s.repos i = some repo)
    (hsnapshot : repo'.snapshot = repo.snapshot) (hsound : RepoSound env repo') :
    AllSound env (s.setRepo i repo') where
  disk := h.disk
  repo j other hother := by
    simp only [State.setRepo] at hother
    rcases update_some hother with ⟨rfl, rfl⟩ | ⟨hj, hother⟩
    · exact hsound
    · exact h.repo j other hother
  served j other hother hlock := by
    simp only [State.setRepo] at hother hlock ⊢
    rcases update_some hother with ⟨rfl, rfl⟩ | ⟨hj, hother⟩
    · rw [hsnapshot]
      exact h.served j repo hrepo hlock
    · exact h.served j other hother hlock

theorem AllSound.finish {s} (h : AllSound env s) (hrepo : s.repos i = some repo)
    (hsnapshot : repo'.snapshot = repo.snapshot) : AllSound env (s.finish i repo') := by
  have hsound : RepoSound env repo'.finish := by
    refine RepoSound.finish ?_
    rw [hsnapshot]
    exact (h.repo i repo hrepo).snapshot
  have hset : AllSound env (s.setRepo i repo'.finish) := h.setRepo hrepo hsnapshot hsound
  exact hset.same rfl rfl rfl fun _ h => h

theorem AllSound.start {s} (h : AllSound env s) (hrepo : s.repos i = some repo)
    (hsnapshot : repo'.snapshot = repo.snapshot) (hstale : repo'.stale = repo.stale)
    (hchecked : repo'.checkedOn = repo.checkedOn) (full) :
    AllSound env (s.start i repo' full) := by
  have hsound : RepoSound env { repo' with pump := some (.reading full) } := by
    refine ⟨?_, ?_, ?_⟩
    · simp only [hsnapshot]
      exact (h.repo i repo hrepo).snapshot
    · intro phase hphase
      cases hphase
      trivial
    · simp only [hsnapshot, hstale, hchecked]
      exact (h.repo i repo hrepo).checked
  have hset : AllSound env (s.setRepo i { repo' with pump := some (.reading full) }) :=
    h.setRepo hrepo hsnapshot hsound
  exact hset.same rfl rfl rfl fun _ h => h

variable [DecidableEq D]

theorem AllSound.readFiles {s} (h : AllSound env s) (hrepo : s.repos i = some repo)
    (hsnapshot : repo'.snapshot = repo.snapshot) (hstale : repo'.stale = repo.stale)
    (hchecked : repo'.checkedOn = repo.checkedOn) (full) (files) :
    AllSound env (s.readFiles env i repo' full files) := by
  have hold := h.repo i repo hrepo
  rw [State.readFiles]
  split
  · exact h.finish hrepo hsnapshot
  split
  · rename_i hempty
    refine h.setRepo hrepo hsnapshot ⟨?_, ?_, ?_⟩
    · simp only [hsnapshot]
      exact hold.snapshot
    · intro phase hphase
      cases hphase
      intro digest hdigest
      rw [hempty] at hdigest
      exact ⟨∅, some.inj hdigest, (if_pos rfl).symm⟩
    · simp only [hsnapshot, hstale, hchecked]
      exact hold.checked
  · rename_i hfiles
    refine h.setRepo hrepo hsnapshot ⟨?_, ?_, ?_⟩
    · simp only [hsnapshot]
      exact hold.snapshot
    · intro phase hphase
      cases hphase
      exact hfiles
    · simp only [hsnapshot, hstale, hchecked]
      exact hold.checked

end Sound

theorem AllSound.makeIndex {ι ω D G : Type} [DecidableEq ω] {env : Env ι ω D G}
    {s : State ι ω D G} (hdisk : ∀ i snapshot, s.disk i = some snapshot → snapshot.Sound env)
    (hrepo : ∀ i repo, s.repos i = some repo → RepoSound env repo) (w : ω)
    (hserved : ∀ i repo, s.repos i = some repo → env.workspace i ≠ w →
      s.configuring (env.workspace i) = false → s.served i = repo.snapshot.map Snapshot.graph) :
    AllSound env (s.makeIndex env w) where
  disk := hdisk
  repo := hrepo
  served i repo hi hlock := by
    simp only [State.makeIndex] at hi ⊢
    by_cases hw : env.workspace i = w
    · simp [hw, hi]
    · simp only [if_neg hw]
      exact hserved i repo hi hw hlock

/-! ## Every run -/

section Run

variable {ι ω D G : Type} [DecidableEq ι] [DecidableEq ω] [DecidableEq D] [DecidableEq G]

/-- The provider built what it builds of the files the digest was taken
of; and a check that finds no difference compared with the digest of the
snapshot that is in place. -/
def seesFiles (env : Env ι ω D G) (s : State ι ω D G) : Act ι ω → Bool
  | .built i _ =>
    (s.repos i).all fun repo =>
      match repo.pump with
      | some (Phase.building (some files) seen) => env.build seen = env.build files
      | _ => true
  | .checkEnd i k =>
    (s.repos i).all fun repo =>
      match repo.checks[k]? with
      | some (Check.answered fingerprint (some files)) =>
        env.digest files ≠ fingerprint ||
          repo.snapshot.all fun snapshot => snapshot.fingerprint.all (· = fingerprint)
      | _ => true
  | _ => true

def Sees (env : Env ι ω D G) (s : State ι ω D G) (a : Act ι ω) : Prop := seesFiles env s a = true

instance (env : Env ι ω D G) (s : State ι ω D G) (a : Act ι ω) : Decidable (Sees env s a) :=
  inferInstanceAs (Decidable (_ = true))

variable {env : Env ι ω D G} {s : State ι ω D G}

theorem allSound_step {t a} (h : AllSound env s) (hguard : Sees env s a)
    (hstep : step env s a = some t) :
    AllSound env t := by
  have hrepos := h.repo
  cases step_cases hstep with
  | ticked | wrote | unwound => exact h.same rfl rfl rfl fun _ h => h
  | configures w =>
    refine h.same rfl rfl rfl ?_
    intro i hlock
    by_cases hw : env.workspace i = w
    · simp only [hw, update_self] at hlock
      cases hlock
    · simpa only [update_of_ne hw] using hlock
  | indexed w =>
    have hnext := @AllSound.makeIndex _ _ _ _ _ env
      { s with configuring := Function.update s.configuring w false } h.disk h.repo w
    refine hnext ?_
    intro i repo hi hw hlock
    simp only [update_of_ne hw] at hlock
    exact h.served i repo hi hlock
  | dropped i written repo hrepo orphans disk hdisk =>
    refine ⟨?_, ?_, ?_⟩
    · intro j snapshot hj
      rcases hdisk with rfl | ⟨saved, hpump, rfl⟩
      · exact h.disk j snapshot hj
      by_cases hji : j = i
      · subst hji
        simp only [update_self, Option.some.injEq] at hj
        subst hj
        exact (hrepos j repo hrepo).pump _ hpump
      · simp only [update_of_ne hji] at hj
        exact h.disk j snapshot hj
    · intro j other hother
      by_cases hji : j = i
      · subst hji
        simp at hother
      · simp only [update_of_ne hji] at hother
        exact hrepos j other hother
    · intro j other hother
      by_cases hji : j = i
      · subst hji
        simp at hother
      · simp only [update_of_ne hji] at hother
        exact h.served j other hother
  | loaded i readable hlock hnone =>
    have hloaded : ∀ snapshot corrupt, (∀ snap, snapshot = some snap → snap.Sound env) →
        RepoSound env (.loaded snapshot corrupt) := by
      intro snapshot corrupt hsound
      refine ⟨hsound, ?_, ?_⟩
      · intro phase hphase
        cases hphase
      · intro tree htree
        cases htree
    refine ⟨h.disk, ?_, ?_⟩
    · intro j other hother
      simp only [State.setRepo] at hother
      rcases update_some hother with ⟨rfl, rfl⟩ | ⟨hji, hother⟩
      · cases readable with
        | true => exact hloaded _ _ (h.disk j)
        | false => exact hloaded _ _ fun _ h => by cases h
      · exact hrepos j other hother
    · intro j other hother hfree
      simp only [State.setRepo] at hother hfree ⊢
      by_cases hji : j = i
      · subst hji
        rw [hlock] at hfree
        cases hfree
      · rw [update_of_ne hji] at hother
        exact h.served j other hother hfree
  | refreshed i repo hrepo =>
    exact h.setRepo hrepo (schedule_rest _ _ _ _).1 ((hrepos i repo hrepo).schedule _ _ _)
  | reindexed i full repo hrepo =>
    have hset : AllSound env (s.setRepo i (repo.schedule s.clock 0 full)) :=
      h.setRepo hrepo (schedule_rest _ _ _ _).1 ((hrepos i repo hrepo).schedule _ _ _)
    exact hset.same rfl rfl rfl fun _ h => h
  | gitScheduled i repo hrepo =>
    exact h.setRepo hrepo (schedule_rest _ _ _ _).1 ((hrepos i repo hrepo).schedule _ _ _)
  | gitBuilding i repo hrepo =>
    exact h.setRepo hrepo rfl ((hrepos i repo hrepo).congr rfl rfl rfl fun _ h _ => h)
  | checks i repo hrepo =>
    exact h.setRepo hrepo rfl ((hrepos i repo hrepo).congr rfl rfl rfl fun _ h _ => h)
  | looked i k present repo hrepo =>
    exact h.setRepo hrepo rfl ((hrepos i repo hrepo).congr rfl rfl rfl fun _ h _ => h)
  | checkedFiles i k readable repo hrepo =>
    exact h.setRepo hrepo rfl ((hrepos i repo hrepo).congr rfl rfl rfl fun _ h _ => h)
  | lookedOpaque i k present repo hrepo checks snapshot hsnapshot hnofiles =>
    have hold := hrepos i repo hrepo
    refine h.setRepo hrepo rfl ⟨hold.snapshot, hold.pump, ?_⟩
    intro tree _ _ other hother digest hdigest
    rw [hsnapshot] at hother
    cases hother
    rw [hnofiles] at hdigest
    cases hdigest
  | checked i k repo hrepo fingerprint files hcheck =>
    have hold := hrepos i repo hrepo
    refine h.setRepo hrepo rfl ⟨hold.snapshot, hold.pump, ?_⟩
    intro tree hfiles hstale snapshot hsnapshot digest hdigest
    simp only [Repo.answer] at hfiles hstale hsnapshot
    subst hfiles
    -- not stale: the check compared with the digest in place
    have heq : env.digest tree = fingerprint := by simpa using hstale
    simp only [Sees, seesFiles, hrepo, hcheck, all_some, heq, ne_eq, not_true_eq_false,
      decide_false, Bool.false_or, hsnapshot, hdigest, decide_eq_true_eq] at hguard
    exact heq.trans hguard.symm
  | started i repo hrepo => refine h.start hrepo ?_ ?_ ?_ _ <;> rfl
  | waits i repo hrepo =>
    refine h.setRepo hrepo rfl ((hrepos i repo hrepo).congr rfl rfl rfl ?_)
    intro phase hphase hholds
    cases hphase
    cases hholds
  | acquired i repo hrepo full => exact h.start hrepo rfl rfl rfl _
  | abandoned i absent repo hrepo => exact h.finish hrepo rfl
  | filesRead i readable repo hrepo full hpump files hfiles =>
    have hnext : AllSound env { s with
        owed := Function.update s.owed i { s.owed i with unread := false } } :=
      h.same rfl rfl rfl fun _ h => h
    refine hnext.readFiles hrepo ?_ ?_ ?_ full files <;> rfl
  | saw i path repo hrepo files seen hpump =>
    have hold := hrepos i repo hrepo
    refine h.setRepo hrepo rfl ⟨hold.snapshot, ?_, hold.checked⟩
    intro phase hphase
    cases hphase
    have hfiles : files ≠ some ∅ := hold.pump _ hpump
    exact hfiles
  | builds i repo hrepo files seen hpump =>
    have hold := hrepos i repo hrepo
    refine h.setRepo hrepo rfl ⟨hold.snapshot, ?_, hold.checked⟩
    intro phase hphase
    cases hphase
    intro digest hdigest
    obtain ⟨tree, rfl, rfl⟩ := map_eq_some_iff.mp hdigest
    have hne : tree ≠ ∅ := by
      rintro rfl
      exact hold.pump _ hpump rfl
    have hseen : env.build seen = env.build tree := by
      simpa [Sees, seesFiles, hrepo, hpump] using hguard
    refine ⟨tree, rfl, ?_⟩
    rw [Env.graphOf, if_neg hne]
    exact hseen
  | fails i _ _ repo hrepo => exact h.finish hrepo rfl
  | installed i repo hrepo snapshot hpump =>
    have hsound : snapshot.Sound env := (hrepos i repo hrepo).pump _ hpump
    refine AllSound.makeIndex ?_ ?_ (env.workspace i) ?_
    · intro j other hj
      by_cases hji : j = i
      · subst hji
        simp only [update_self, Option.some.injEq] at hj
        subst hj
        exact hsound
      · simp only [update_of_ne hji] at hj
        exact h.disk j other hj
    · intro j other hother
      simp only [State.finish, State.setRepo] at hother
      rcases update_some hother with ⟨rfl, rfl⟩ | ⟨hji, hother⟩
      · refine RepoSound.finish ?_
        intro snap hsnap
        cases hsnap
        exact hsound
      · exact hrepos j other hother
    · intro j other hother hw hlock
      have hji : j ≠ i := by
        rintro rfl
        exact hw rfl
      simp only [State.finish, State.setRepo, update_of_ne hji] at hother
      exact h.served j other hother hlock

/-- **A ready graph describes the files**: in every run in which the provider sees the files the
digest is of and a check answers for the snapshot in place, an idle, ready repository whose last
check read the current files serves their graph. -/
theorem ready_describes {tree : ι → Tree} {as : List (Act ι ω)}
    (h : Run (step env) (Sees env) (State.initial tree) as s) (hidle : s.Idle)
    (hdigest : Function.Injective env.digest) {i : ι} {repo : Repo D G}
    (hrepo : s.repos i = some repo) (hready : repo.phase = .ready)
    (haddressed : ∃ snapshot digest, repo.snapshot = some snapshot ∧
      snapshot.fingerprint = some digest) (hchecked : repo.checkedOn = some (s.tree i)) :
    s.served i = some (env.graphOf (s.tree i)) := by
  have hsound : AllSound env s :=
    @Run.invariant _ _ (step env) (Sees env) (AllSound env)
      (fun hs hguard hstep => allSound_step hs hguard hstep) _ _ _ h (allSound_initial tree)
  obtain ⟨snapshot, digest, hsnapshot, hfingerprint⟩ := haddressed
  have hstale : repo.stale = false := by
    rw [← Bool.not_eq_true]
    intro hstale
    simp only [Repo.phase, hstale, hsnapshot, isNone_some, Bool.true_or, if_true,
      Bool.false_eq_true, if_false] at hready
    split at hready
    · cases hready
    · split at hready
      · cases hready
      · split at hready <;> cases hready
  have hcurrent := (hsound.repo i repo hrepo).checked _ hchecked hstale snapshot hsnapshot digest
    hfingerprint
  obtain ⟨built, hbuilt, hgraph⟩ :=
    (hsound.repo i repo hrepo).snapshot snapshot hsnapshot digest hfingerprint
  obtain rfl := hdigest (hbuilt.trans hcurrent.symm)
  rw [hsound.served i repo hrepo (hidle.configured _), hsnapshot, map_some, hgraph]

end Run

/-- A file is written before the build, and the check finds it unchanged. -/
theorem ready_describes_sample : ∃ s : State (Fin 2) Unit Tree Tree, s.Idle ∧ s.tree 0 ≠ ∅ ∧
      s.served 0 = some (sampleEnv.graphOf (s.tree 0)) := by
  have hrun : (execWithin (step sampleEnv) (Sees sampleEnv) (State.initial fun _ => ∅)
      (configureRun ++ [.write 0 "a.py" (some "1"), .reindex 0 false, .pump 0, .read 0 true,
        .built 0 true, .saved 0 true, .checkStart 0, .checkLook 0 0 true, .checkRead 0 0 true,
        .checkEnd 0 0])).any
      (fun s => isIdle s && decide (s.tree 0 ≠ ∅) &&
        (s.repos 0).any fun repo => repo.phase = .ready ∧ repo.checkedOn = some (s.tree 0) ∧
          (repo.snapshot.any fun snapshot => snapshot.fingerprint.isSome)) = true := by
    decide +kernel
  obtain ⟨s, hs, hfacts⟩ := (any_eq_true _ _).mp hrun
  simp only [Bool.and_eq_true, decide_eq_true_eq] at hfacts
  obtain ⟨⟨hidle, htree⟩, hany⟩ := hfacts
  obtain ⟨repo, hrepo, hready⟩ := (any_eq_true _ _).mp hany
  obtain ⟨hphase, hchecked, haddressed⟩ := of_decide_eq_true hready
  obtain ⟨snapshot, hsnapshot, hsome⟩ := (any_eq_true _ _).mp haddressed
  obtain ⟨digest, hdigest⟩ := isSome_iff_exists.mp hsome
  exact ⟨s, idle_of_isIdle hidle, htree,
    ready_describes (Run.of_execWithin hs) (idle_of_isIdle hidle) injective_id hrepo hphase
      ⟨snapshot, digest, hsnapshot, hdigest⟩ hchecked⟩

/-- A file changes after its digest is taken, the provider reads it, and
it changes back: the check finds the digest of the snapshot. -/
theorem ready_outdated :
    ∃ (as : List (Act (Fin 2) Unit)) (s : State (Fin 2) Unit Tree Tree) (repo : Repo Tree Tree),
      Run (step sampleEnv) Free (State.initial fun _ => ∅) as s ∧ s.Idle ∧
        s.repos 0 = some repo ∧ repo.phase = .ready ∧ repo.checkedOn = some (s.tree 0) ∧
        (repo.snapshot.any fun snapshot => snapshot.fingerprint.isSome) = true ∧
        s.served 0 ≠ some (sampleEnv.graphOf (s.tree 0)) := by
  have hrun : (execWithin (step sampleEnv) Free (State.initial fun _ => ∅)
      (configureRun ++ [.write 0 "a.py" (some "1"), .reindex 0 false, .pump 0, .read 0 true,
        .write 0 "a.py" (some "2"), .see 0 "a.py", .write 0 "a.py" (some "1"),
        .built 0 true, .saved 0 true, .checkStart 0, .checkLook 0 0 true, .checkRead 0 0 true,
        .checkEnd 0 0])).any
      (fun s => isIdle s && (s.repos 0).any fun repo =>
        repo.phase = .ready ∧ repo.checkedOn = some (s.tree 0) ∧
          (repo.snapshot.any fun snapshot => snapshot.fingerprint.isSome) ∧
          s.served 0 ≠ some (sampleEnv.graphOf (s.tree 0))) = true := by
    decide +kernel
  obtain ⟨s, hs, hfacts⟩ := (any_eq_true _ _).mp hrun
  simp only [Bool.and_eq_true] at hfacts
  obtain ⟨repo, hrepo, hready⟩ := (any_eq_true _ _).mp hfacts.2
  obtain ⟨hphase, hchecked, haddressed, hserved⟩ := of_decide_eq_true hready
  exact ⟨_, s, repo, Run.of_execWithin hs, idle_of_isIdle hfacts.1, hrepo, hphase, hchecked,
    haddressed, hserved⟩

end StudioOS.CodeGraph
