import StudioOS.CodeGraph.Steps

/-!
# Code graph — Requests

Which pump answers an accepted request. A request is kept in the flags of its
repository until a pump consumes them; from then until the pump has a slot it
is in the pump alone, and a schedule that is not full cancels the pump.
-/

namespace StudioOS.CodeGraph

open Function Runs

/-! ## One repository -/

section Answers

variable {D G : Type}

/-- A full build of the repository is ahead. -/
def Repo.OwesFull (repo : Repo D G) : Prop :=
  (repo.full = true ∧ (repo.pump = some .pending ∨ repo.building = true ∧ repo.rerun = true)) ∨
    repo.pump = some (.waiting true)

/-- A build of the repository is ahead. -/
def Repo.OwesCheck (repo : Repo D G) : Prop :=
  repo.pump = some .pending ∨ (∃ full, repo.pump = some (.waiting full)) ∨
    repo.building = true ∧ repo.rerun = true

/-- The build under way reads the files later. -/
def Repo.Unread (repo : Repo D G) : Prop := ∃ full, repo.pump = some (.reading full)

/-- What is owed, the pump of the repository answers. -/
structure Answers (repo : Repo D G) (owed : Owed) : Prop where
  full : owed.full = true → repo.OwesFull
  check : owed.check = true → repo.OwesCheck
  unread : owed.unread = true → repo.Unread

theorem answers_nothing (repo : Repo D G) : Answers repo .nothing where
  full h := by cases h
  check h := by cases h
  unread h := by cases h

theorem Answers.congr {repo repo' : Repo D G} {owed : Owed} (h : Answers repo owed)
    (hfull : repo'.full = repo.full) (hrerun : repo'.rerun = repo.rerun)
    (hpump : repo'.pump = repo.pump) : Answers repo' owed := by
  have hbuilding : repo'.building = repo.building := by
    rw [Repo.building, Repo.building, hpump]
  refine ⟨?_, ?_, ?_⟩
  · rw [Repo.OwesFull, hfull, hrerun, hpump, hbuilding]
    exact h.full
  · rw [Repo.OwesCheck, hrerun, hpump, hbuilding]
    exact h.check
  · rw [Repo.Unread, hpump]
    exact h.unread

theorem Answers.schedule {repo : Repo D G} {owed : Owed} (h : Answers repo owed) (clock delay : Nat)
    {full : Bool} (hcancel : repo.pump = some (.waiting true) → full = true) :
    Answers (repo.schedule clock delay full)
      { owed with full := owed.full || full, check := true } := by
  by_cases hbuilding : repo.building = true
  · have hkeeps : (repo.schedule clock delay full).building = true ∧
        (repo.schedule clock delay full).rerun = true ∧
        (repo.schedule clock delay full).full = (repo.full || full) ∧
        (repo.schedule clock delay full).pump = repo.pump := by
      rw [Repo.schedule, if_pos hbuilding]
      exact ⟨hbuilding, rfl, rfl, rfl⟩
    obtain ⟨hb, hr, hf, hp⟩ := hkeeps
    refine ⟨?_, fun _ => .inr (.inr ⟨hb, hr⟩), ?_⟩
    · intro howed
      refine .inl ⟨?_, .inr ⟨hb, hr⟩⟩
      rw [hf]
      simp only [Bool.or_eq_true] at howed ⊢
      rcases howed with hold | hnew
      · rcases h.full hold with ⟨hfull, -⟩ | hwaiting
        · exact .inl hfull
        · rw [Repo.building, hwaiting] at hbuilding
          cases hbuilding
      · exact .inr hnew
    · intro howed
      rw [Repo.Unread, hp]
      exact h.unread howed
  · have hkeeps : (repo.schedule clock delay full).pump = some .pending ∧
        (repo.schedule clock delay full).full = (repo.full || full) := by
      simp [Repo.schedule, hbuilding]
    obtain ⟨hp, hf⟩ := hkeeps
    refine ⟨?_, fun _ => .inl hp, ?_⟩
    · intro howed
      refine .inl ⟨?_, .inl hp⟩
      rw [hf]
      simp only [Bool.or_eq_true] at howed ⊢
      rcases howed with hold | hnew
      · rcases h.full hold with ⟨hfull, -⟩ | hwaiting
        · exact .inl hfull
        · exact .inr (hcancel hwaiting)
      · exact .inr hnew
    · intro howed
      obtain ⟨old, hreading⟩ := h.unread howed
      rw [Repo.building, hreading] at hbuilding
      exact absurd rfl hbuilding

theorem Answers.finish {repo : Repo D G} {owed : Owed} (h : Answers repo owed)
    (hbuilding : repo.building = true) (hread : owed.unread = false) :
    Answers repo.finish owed := by
  have hrun : repo.OwesCheck → repo.rerun = true := by
    rintro (hpending | ⟨full, hwaiting⟩ | ⟨-, hrerun⟩)
    · rw [Repo.building, hpending] at hbuilding
      cases hbuilding
    · rw [Repo.building, hwaiting] at hbuilding
      cases hbuilding
    · exact hrerun
  have hfull : repo.OwesFull → repo.full = true ∧ repo.rerun = true := by
    rintro (⟨hflag, hpending | ⟨-, hrerun⟩⟩ | hwaiting)
    · rw [Repo.building, hpending] at hbuilding
      cases hbuilding
    · exact ⟨hflag, hrerun⟩
    · rw [Repo.building, hwaiting] at hbuilding
      cases hbuilding
  refine ⟨?_, ?_, ?_⟩
  · intro howed
    obtain ⟨hflag, hrerun⟩ := hfull (h.full howed)
    refine .inl ⟨hflag, .inl ?_⟩
    simp [Repo.finish, hrerun]
  · intro howed
    refine .inl ?_
    simp [Repo.finish, hrun (h.check howed)]
  · intro howed
    rw [hread] at howed
    cases howed

theorem Answers.goOn {repo repo' : Repo D G} {owed : Owed} (h : Answers repo owed)
    (hfull : repo'.full = repo.full) (hrerun : repo'.rerun = repo.rerun)
    (hbuilding : repo.building = true) (hbuilding' : repo'.building = true)
    (hread : owed.unread = false) : Answers repo' owed := by
  refine ⟨?_, ?_, ?_⟩
  · intro howed
    rcases h.full howed with ⟨hflag, hpending | ⟨-, hrun⟩⟩ | hwaiting
    · rw [Repo.building, hpending] at hbuilding
      cases hbuilding
    · exact .inl ⟨hfull.trans hflag, .inr ⟨hbuilding', hrerun.trans hrun⟩⟩
    · rw [Repo.building, hwaiting] at hbuilding
      cases hbuilding
  · intro howed
    rcases h.check howed with hpending | ⟨_, hwaiting⟩ | ⟨-, hrun⟩
    · rw [Repo.building, hpending] at hbuilding
      cases hbuilding
    · rw [Repo.building, hwaiting] at hbuilding
      cases hbuilding
    · exact .inr (.inr ⟨hbuilding', hrerun.trans hrun⟩)
  · intro howed
    rw [hread] at howed
    cases howed

end Answers

section Kept

variable {ι ω D G : Type}

def Kept (s : State ι ω D G) : Prop :=
  ∀ i, (s.repos i = none → s.owed i = .nothing) ∧ ∀ repo, s.repos i = some repo →
    Answers repo (s.owed i)

theorem Kept.same {s t : State ι ω D G} (h : Kept s) (hrepos : t.repos = s.repos)
    (howed : t.owed = s.owed) : Kept t := by
  intro i
  rw [hrepos, howed]
  exact h i

variable [DecidableEq ι] {i : ι} {repo : Repo D G}

theorem Kept.update {s t : State ι ω D G} (h : Kept s) {owed : Owed}
    (hrepos : t.repos = Function.update s.repos i (some repo))
    (howed : t.owed = Function.update s.owed i owed) (hanswers : Answers repo owed) : Kept t := by
  intro j
  rw [hrepos, howed]
  by_cases hj : j = i
  · subst hj
    rw [update_self, update_self]
    refine ⟨fun hnone => absurd hnone (Option.some_ne_none _), ?_⟩
    intro other hother
    cases hother
    exact hanswers
  · rw [update_of_ne hj, update_of_ne hj]
    exact h j

theorem Kept.setRepo {s : State ι ω D G} (h : Kept s)
    (hanswers : Answers repo (s.owed i)) : Kept (s.setRepo i repo) :=
  h.update rfl (update_eq_self i s.owed).symm hanswers

theorem Kept.start {s : State ι ω D G} (h : Kept s) {full : Bool}
    (hfull : (s.owed i).full = true → full = true) : Kept (s.start i repo full) := by
  refine h.update rfl rfl ⟨?_, ?_, ?_⟩
  · intro howed
    simp only [Bool.and_eq_true, Bool.not_eq_true'] at howed
    rw [hfull howed.1] at howed
    exact absurd howed.2 (by decide)
  · intro howed
    cases howed
  · intro _
    exact ⟨full, rfl⟩

theorem Kept.finish {s : State ι ω D G} {i repo} (h : Kept s) (hanswers : Answers repo (s.owed i))
    (hbuilding : repo.building = true)
    (hread : (s.owed i).unread = false) : Kept (s.finish i repo) :=
  (h.setRepo (hanswers.finish hbuilding hread)).same rfl rfl

end Kept

section Guards

variable {ι ω D G : Type} {s : State ι ω D G}

/-- The pump of the repository waits for a slot with a full request. -/
def State.holdsFull (s : State ι ω D G) (i : ι) : Bool :=
  (s.repos i).any fun repo =>
    match repo.pump with
    | some (.waiting full) => full
    | _ => false

/-- The provider and the roots are there. -/
def available : Act ι ω → Bool
  | .abandon _ _ => false
  | _ => true

/-- No schedule that is not full cancels a pump that waits with a full
request. -/
def keepsFull (s : State ι ω D G) : Act ι ω → Bool
  | .refresh i => !s.holdsFull i || (s.repos i).any Repo.corrupt
  | .reindex i full => !s.holdsFull i || full
  | .gitSchedule i => !s.holdsFull i
  | _ => true

def Available (_ : State ι ω D G) (a : Act ι ω) : Prop := available a = true

def Keeping (s : State ι ω D G) (a : Act ι ω) : Prop := (available a && keepsFull s a) = true

instance (s : State ι ω D G) (a : Act ι ω) : Decidable (Available s a) :=
  inferInstanceAs (Decidable (_ = true))

instance (s : State ι ω D G) (a : Act ι ω) : Decidable (Keeping s a) :=
  inferInstanceAs (Decidable (_ = true))

theorem holdsFull_of_waiting {i repo} (hrepo : s.repos i = some repo)
    (hwaiting : repo.pump = some (.waiting true)) : s.holdsFull i = true := by
  simp [State.holdsFull, hrepo, hwaiting]

end Guards

/-! ## Every run -/

section Run

variable {ι ω D G : Type} {s : State ι ω D G}

theorem Answers.read {D G : Type} {repo : Repo D G} {owed : Owed} (h : Answers repo owed)
    (hpump : ∀ full, repo.pump ≠ some (.reading full)) : owed.unread = false := by
  rw [← Bool.not_eq_true]
  intro howed
  obtain ⟨full, hreading⟩ := h.unread howed
  exact hpump full hreading

variable [DecidableEq ι]

theorem Kept.schedule {i repo} (h : Kept s) (hrepo : s.repos i = some repo) (clock delay) {full}
    (hkeeps : s.holdsFull i = true → full = true) {owed}
    (hfull : owed.full = true → (s.owed i).full = true ∨ full = true)
    (hunread : owed.unread = true → (s.owed i).unread = true) :
    Kept { s.setRepo i (repo.schedule clock delay full) with
      owed := Function.update s.owed i owed } := by
  have hanswers := ((h i).2 repo hrepo).schedule clock delay
    fun hwaiting => hkeeps (holdsFull_of_waiting hrepo hwaiting)
  refine h.update rfl rfl ⟨?_, fun _ => hanswers.check rfl, fun howed => ?_⟩
  · intro howed
    refine hanswers.full ?_
    simp only [Bool.or_eq_true]
    exact hfull howed
  · exact hanswers.unread (hunread howed)

variable [DecidableEq D] {env : Env ι ω D G}

theorem Kept.readFiles {i repo} (h : Kept s) (hanswers : Answers repo (s.owed i))
    (hbuilding : repo.building = true) (hread : (s.owed i).unread = false) (full) (files) :
    Kept (s.readFiles env i repo full files) := by
  rw [State.readFiles]
  split
  · exact h.finish (hanswers.congr rfl rfl rfl) hbuilding hread
  · split <;> exact h.setRepo (hanswers.goOn rfl rfl hbuilding rfl hread)

variable [DecidableEq ω]

theorem kept_step {t a} (h : Kept s) (hguard : Keeping s a)
    (hstep : step env s a = some t) : Kept t := by
  simp only [Keeping, Bool.and_eq_true] at hguard
  obtain ⟨havailable, hkeeps⟩ := hguard
  have hheld : ∀ i repo, s.repos i = some repo → Answers repo (s.owed i) := fun i => (h i).2
  have hsame : ∀ i, s.owed = Function.update s.owed i (s.owed i) :=
    fun i => (update_eq_self i s.owed).symm
  cases step_cases hstep with
  | ticked | wrote | configures | indexed | unwound => exact h.same rfl rfl
  | abandoned => cases havailable
  | dropped i written repo hrepo =>
    intro j
    simp only
    by_cases hj : j = i
    · subst hj
      rw [update_self, update_self]
      exact ⟨fun _ => rfl, fun _ hnone => by cases hnone⟩
    · rw [update_of_ne hj, update_of_ne hj]
      exact h j
  | loaded i readable hlock hnone =>
    refine h.setRepo ?_
    rw [(h i).1 hnone]
    exact answers_nothing _
  | refreshed i repo hrepo =>
    have hcancel : s.holdsFull i = true → repo.corrupt = true := by
      intro hholds
      simpa [keepsFull, hholds, hrepo] using hkeeps
    have hnext := h.schedule hrepo s.clock 0 hcancel (fun h => .inl h) fun h => h
    exact hnext.same rfl (hsame i)
  | reindexed i full repo hrepo =>
    have hcancel : s.holdsFull i = true → full = true := by
      intro hholds
      simpa [keepsFull, hholds] using hkeeps
    refine h.schedule hrepo s.clock 0 hcancel ?_ fun h => h
    intro howed
    simpa using howed
  | gitScheduled i repo hrepo =>
    have hcancel : s.holdsFull i = true → false = true := by
      intro hholds
      simp [keepsFull, hholds] at hkeeps
    have hnext := h.schedule hrepo s.clock env.debounce hcancel (fun h => .inl h) fun h => h
    exact hnext.same rfl (hsame i)
  | gitBuilding i repo hrepo hbuilding =>
    have hold := hheld i repo hrepo
    refine h.setRepo ⟨?_, fun _ => .inr (.inr ⟨hbuilding, rfl⟩), hold.unread⟩
    intro howed
    rcases hold.full howed with ⟨hflag, -⟩ | hwaiting
    · exact .inl ⟨hflag, .inr ⟨hbuilding, rfl⟩⟩
    · exact .inr hwaiting
  | checks i repo hrepo => exact h.setRepo ((hheld i repo hrepo).congr rfl rfl rfl)
  | looked i k present repo hrepo => exact h.setRepo ((hheld i repo hrepo).congr rfl rfl rfl)
  | lookedOpaque i k present repo hrepo =>
    exact h.setRepo ((hheld i repo hrepo).congr rfl rfl rfl)
  | checkedFiles i k readable repo hrepo =>
    exact h.setRepo ((hheld i repo hrepo).congr rfl rfl rfl)
  | checked i k repo hrepo => exact h.setRepo ((hheld i repo hrepo).congr rfl rfl rfl)
  | started i repo hrepo hpump =>
    refine h.start ?_
    intro howed
    rcases (hheld i repo hrepo).full howed with ⟨hflag, -⟩ | hwaiting
    · exact hflag
    · rw [hpump] at hwaiting
      cases hwaiting
  | waits i repo hrepo hpump =>
    have hold := hheld i repo hrepo
    refine h.setRepo ⟨?_, fun _ => .inr (.inl ⟨_, rfl⟩), ?_⟩
    · intro howed
      rcases hold.full howed with ⟨hflag, -⟩ | hwaiting
      · exact .inr (by rw [hflag])
      · rw [hpump] at hwaiting
        cases hwaiting
    · intro howed
      obtain ⟨full, hreading⟩ := hold.unread howed
      rw [hpump] at hreading
      cases hreading
  | acquired i repo hrepo full hpump =>
    refine h.start ?_
    intro howed
    rcases (hheld i repo hrepo).full howed with ⟨-, hpending | ⟨hbuilding, -⟩⟩ | hwaiting
    · rw [hpump] at hpending
      cases hpending
    · rw [Repo.building, hpump] at hbuilding
      cases hbuilding
    · rw [hpump] at hwaiting
      cases hwaiting
      rfl
  | filesRead i readable repo hrepo full hpump files =>
    have hold := hheld i repo hrepo
    have hread : Answers repo { s.owed i with unread := false } :=
      ⟨hold.full, hold.check, fun howed => by cases howed⟩
    have hnext : Kept { s with
        owed := Function.update s.owed i { s.owed i with unread := false } } := by
      refine h.update ?_ rfl hread
      rw [← hrepo, update_eq_self]
    have hnow : Answers { repo with missing := false }
        (Function.update s.owed i { s.owed i with unread := false } i) := by
      rw [update_self]
      exact hread.congr rfl rfl rfl
    have hbuilding : ({ repo with missing := false } : Repo D G).building = true :=
      building_of_pump hpump rfl
    refine hnext.readFiles hnow hbuilding ?_ full files
    simp [update_self]
  | saw i path repo hrepo files seen hpump =>
    have hold := hheld i repo hrepo
    refine h.setRepo (hold.goOn rfl rfl (building_of_pump hpump rfl) rfl (hold.read ?_))
    intro full hreading
    rw [hpump] at hreading
    cases hreading
  | builds i repo hrepo files seen hpump =>
    have hold := hheld i repo hrepo
    refine h.setRepo (hold.goOn rfl rfl (building_of_pump hpump rfl) rfl (hold.read ?_))
    intro full hreading
    rw [hpump] at hreading
    cases hreading
  | fails i _ _ repo hrepo hbuilding hread =>
    have hold := hheld i repo hrepo
    exact h.finish (hold.congr rfl rfl rfl) hbuilding (hold.read hread)
  | installed i repo hrepo snapshot hpump =>
    have hold := hheld i repo hrepo
    have hread : (s.owed i).unread = false := by
      refine hold.read ?_
      intro full hreading
      rw [hpump] at hreading
      cases hreading
    have hnext := h.finish (@Answers.congr _ _ repo
      { repo with snapshot := some snapshot, corrupt := false, stale := false, failed := false }
      _ hold rfl rfl rfl) (building_of_pump hpump rfl) hread
    exact hnext.same rfl rfl

/-- **Accepted requests are answered**: in every run in which the provider
and the roots are there and no schedule cancels a pump that waits with a
full request, nothing is owed when the service is idle. -/
theorem requests_kept {tree : ι → Tree} {as : List (Act ι ω)}
    (h : Run (step env) Keeping (State.initial tree) as s) (hidle : s.Idle) (i : ι) :
    s.owed i = .nothing := by
  have hinitial : Kept (State.initial tree : State ι ω D G) :=
    fun i => ⟨fun _ => rfl, fun repo hrepo => by cases hrepo⟩
  have hkept : Kept s :=
    @Run.invariant _ _ (step env) Keeping Kept
      (fun hs hguard hstep => kept_step hs hguard hstep) _ _ _ h hinitial
  cases hrepo : s.repos i with
  | none => exact (hkept i).1 hrepo
  | some repo =>
    have hanswers := (hkept i).2 repo hrepo
    have hpump := hidle.pumps i repo hrepo
    have hbuilding : repo.building = false := by
      rw [Repo.building, hpump]
      rfl
    have hfull : (s.owed i).full = false := by
      rw [← Bool.not_eq_true]
      intro howed
      simpa [Repo.OwesFull, hpump, hbuilding] using hanswers.full howed
    have hcheck : (s.owed i).check = false := by
      rw [← Bool.not_eq_true]
      intro howed
      simpa [Repo.OwesCheck, hpump, hbuilding] using hanswers.check howed
    have hunread : (s.owed i).unread = false := by
      rw [← Bool.not_eq_true]
      intro howed
      simpa [Repo.Unread, hpump] using hanswers.unread howed
    generalize s.owed i = owed at hfull hcheck hunread ⊢
    obtain ⟨_, _, _⟩ := owed
    cases hfull
    cases hcheck
    cases hunread
    rfl

end Run

/-- A full build is asked for, and made. -/
theorem requests_kept_sample :
    ∃ s : State (Fin 2) Unit Tree Tree, s.Idle ∧ (s.repos 0).isSome ∧ s.owed 0 = .nothing := by
  have hrun : (execWithin (step sampleEnv) Keeping (State.initial fun _ => ∅)
      (configureRun ++ [.reindex 0 true, .pump 0, .read 0 true, .saved 0 true])).any
      (fun s => isIdle s && (s.repos 0).isSome) = true := by decide +kernel
  obtain ⟨s, hs, hidle⟩ := Run.of_any hrun
  simp only [Bool.and_eq_true] at hidle
  exact ⟨s, idle_of_isIdle hidle.1, hidle.2, requests_kept hs (idle_of_isIdle hidle.1) 0⟩

/-- While repository 0 has the slot, a full request of repository 1 waits
for it; an incremental request cancels the pump that has it. -/
theorem request_lost : ∃ (as : List (Act (Fin 2) Unit)) (s : State (Fin 2) Unit Tree Tree),
      Run (step sampleEnv) Available (State.initial fun _ => ∅) as s ∧ s.Idle ∧
        (s.owed 1).full = true := by
  have hrun : (execWithin (step sampleEnv) Available (State.initial fun _ => ∅)
      (configureRun ++ [.reindex 0 false, .pump 0, .reindex 1 true, .pump 1, .reindex 1 false,
        .read 0 true, .saved 0 true, .pump 1, .read 1 true, .saved 1 true])).any
      (fun s => isIdle s && (s.owed 1).full) = true := by decide +kernel
  obtain ⟨s, hs, hidle⟩ := Run.of_any hrun
  simp only [Bool.and_eq_true] at hidle
  exact ⟨_, s, hs, idle_of_isIdle hidle.1, hidle.2⟩

end StudioOS.CodeGraph
