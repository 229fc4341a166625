import StudioOS.Launch.System

/-!
# Launch — Steps

What a step does, stated once: of a caller (`Moves`, `advance_moves`), of a
row (`row_step`, `row_origin`), of the callers and the index (`step_acts`,
`callers_after`).
-/

namespace StudioOS.Launches

open Option Function Authz Runs

variable {settings : Settings} {s t : State} {c : CallerId} {k : Caller}

variable {id : Uuid} {row assigned r : Launch} {a : Act}

@[simp] theorem setPhase_launches (phase) : (s.setPhase c k phase).launches = s.launches := rfl

@[simp] theorem setPhase_locks (phase) : (s.setPhase c k phase).locks = s.locks := rfl

@[simp] theorem setPhase_callers (phase) : (s.setPhase c k phase).callers =
      Function.update s.callers c (some { k with phase := phase }) := rfl

/-- The locks after a transaction of the caller ends. -/
def State.locksWithout (s : State) (c : CallerId) (k : Caller) : Uuid → Option CallerId :=
  if s.locks k.launchId = some c then Function.update s.locks k.launchId none else s.locks

theorem unlock_eq : s.unlock c k = { s with locks := s.locksWithout c k } := by
  unfold State.unlock State.locksWithout
  split <;> rfl

theorem finish_eq (result) : s.finish c k result = { s with
        locks := s.locksWithout c k
        callers := Function.update s.callers c (some { k with phase := .done result }) } := by
  rw [State.finish, unlock_eq]
  rfl

theorem nextTransaction_eq (phase) : s.nextTransaction c k phase = { s with
        locks := s.locksWithout c k
        callers := Function.update s.callers c
          (some { k with phase := phase, began := s.clock }) } := by
  rw [State.nextTransaction, unlock_eq]
  rfl

theorem locksWithout_other {c'} (hne : c' ≠ c)
    (hlock : s.locks id = some c') : s.locksWithout c k id = some c' := by
  unfold State.locksWithout
  split
  · rename_i hown
    have hid : id ≠ k.launchId := by
      rintro rfl
      rw [hown] at hlock
      exact hne (some.inj hlock).symm
    rw [update_of_ne hid]
    exact hlock
  · exact hlock

/-- The row after a write, as it stands in the table. -/
def State.put (s : State) (k : Caller) (row : Launch) : State :=
  { s with launches := Function.update s.launches k.launchId (some row) }

theorem write_eq (h : s.write c k row assigned = some t) :
    ∃ current, s.launches k.launchId = some current ∧
      (s.locks k.launchId = none ∨ s.locks k.launchId = some c) ∧
      t = s.put k (row.flush assigned current k.began) := by
  unfold State.write at h
  split at h
  · cases h
  · rename_i current hcurrent
    split at h
    · rename_i hfree
      exact ⟨current, hcurrent, hfree, (some.inj h).symm⟩
    · cases h

theorem lock_eq {phase} (h : s.lock c k phase = some t) :
    ∃ row, s.launches k.launchId = some row ∧ s.locks k.launchId = none ∧
      t = State.setPhase { s with locks := Function.update s.locks k.launchId (some c) } c k
        (phase row) := by
  unfold State.lock at h
  split at h
  · cases h
  · rename_i row hrow
    split at h
    · rename_i hfree
      exact ⟨row, hrow, hfree, (some.inj h).symm⟩
    · cases h

/-! ## The steps of a caller -/

/-- A step that changes nothing but where the caller stands. -/
inductive Silent (settings : Settings) (s : State) (k : Caller) : Phase → Prop where
  | load {row : Launch} (hphase : k.phase = .start) (hop : k.op = .view)
      (hrow : s.launches k.launchId = some row) : Silent settings s k (.loaded row)
  | authorize {row : Launch} (hphase : k.phase = .start)
      (hrow : s.launches k.launchId = some row)
      (hop : ∀ principal retry, k.op = .retry principal retry →
        authorizeRequester principal row "retry" = .ok ()) : Silent settings s k .authorized
  | loadLink {row sessionId workSession} (hphase : k.phase = .start) (hop : k.op = .link sessionId)
      (hrow : s.launches k.launchId = some row)
      (hsession : s.sessions sessionId = some workSession) : Silent settings s k (.linking row)
  | time {row : Launch} (hphase : k.phase = .loaded row) : Silent settings s k (.timed row s.clock)
  | decide {row now} (hphase : k.phase = .timed row now) :
      Silent settings s k
        (.decided row now (evaluate settings row now (linkedOpenSession s.sessions row)))
  | keep {row now} (hphase : k.phase = .decided row now .keep) :
      Silent settings s k (k.kept row row)
  | extend {row now expiresAt} (hphase : k.phase = .decided row now (.prolong expiresAt))
      (hop : k.op.persistExtension = false) :
      Silent settings s k (k.kept row (row.prolonged expiresAt))
  | reread {row : Launch} (hphase : k.phase = .committed)
      (hop : ∀ principal retry, k.op ≠ .retry principal retry)
      (hrow : s.launches k.launchId = some row) : Silent settings s k (.checking false row row)
  | toCreate {row : Launch} (hphase : k.phase = .relocked row)
      (hnone : s.retryIndex k.launchId = none) (hterminal : row.status.isTerminal = true) :
      Silent settings s k (.creating row)

/-- A row the caller locks, and where it stands then. -/
inductive Locks (k : Caller) (row : Launch) : Phase → Prop where
  | first (hphase : k.phase = .authorized) : Locks k row (.loaded row)
  | again {principal retry} (hphase : k.phase = .committed)
      (hop : k.op = .retry principal retry) : Locks k row (.relocked row)

/-- What a caller returns without a write. -/
inductive Answers (s : State) (k : Caller) : Except HttpError Uuid → Prop where
  | absent (hrow : s.launches k.launchId = none) : Answers s k (.error notFound)
  | refused {row principal retry e} (hphase : k.phase = .start)
      (hrow : s.launches k.launchId = some row) (hop : k.op = .retry principal retry)
      (he : authorizeRequester principal row "retry" = .error e) : Answers s k (.error e)
  | existing {principal retry existing} (hop : k.op = .retry principal retry)
      (hindex : s.retryIndex k.launchId = some existing) :
      Answers s k (existingRetry s existing retry)
  | live {row : Launch} (hphase : k.phase = .relocked row)
      (hindex : s.retryIndex k.launchId = none) :
      Answers s k (.error (conflict "launch_not_terminal" [("status", row.status.value)]))
  | other {result} (hop : ∀ principal retry, k.op ≠ .retry principal retry) : Answers s k result

/-- What a caller assigns to the row it loaded, past the evaluation. -/
inductive Assigns (s : State) (k : Caller) : Launch → Launch → Prop where
  | report {principal report locked row assigned} (hop : k.op = .report principal report)
      (hphase : k.phase = .checking locked row assigned)
      (hok : checkReport s.sessions assigned report = .ok ()) :
      Assigns s k row (assigned.reported report s.clock)
  | cancel {principal cancel locked row assigned} (hop : k.op = .cancel principal cancel)
      (hphase : k.phase = .checking locked row assigned)
      (hok : checkCancel assigned cancel = .ok ()) :
      Assigns s k row (assigned.cancelled s.clock)
  | link {sessionId row} (hop : k.op = .link sessionId)
      (hphase : k.phase = .linking row) : Assigns s k row (row.linked sessionId)

/-- **What a step of a caller does.** -/
inductive Moves (settings : Settings) (s : State) (c : CallerId) (k : Caller) : State → Prop where
  | silent {phase : Phase} (h : Silent settings s k phase) :
      Moves settings s c k (s.setPhase c k phase)
  | locks {row phase} (hrow : s.launches k.launchId = some row) (hfree : s.locks k.launchId = none)
      (h : Locks k row phase) :
      Moves settings s c k
        (State.setPhase { s with locks := Function.update s.locks k.launchId (some c) } c k phase)
  | answers {result} (h : Answers s k result) :
      Moves settings s c k (s.finish c k result)
  | prolongs {row current now expiresAt} (hphase : k.phase = .decided row now (.prolong expiresAt))
      (hop : k.op.persistExtension = true) (hcurrent : s.launches k.launchId = some current)
      (hfree : s.locks k.launchId = none ∨ s.locks k.launchId = some c) :
      Moves settings s c k
        ((s.put k (row.flush (row.prolonged expiresAt) current k.began)).nextTransaction c k
          k.evaluated)
  | expires {row current now openSession}
      (hphase : k.phase = .decided row now (.expire openSession))
      (hcurrent : s.launches k.launchId = some current)
      (hfree : s.locks k.launchId = none ∨ s.locks k.launchId = some c) :
      Moves settings s c k
        (((s.put k (row.flush (row.expired now) current k.began)).handOff row
          openSession).nextTransaction c k k.evaluated)
  | assigns {row assigned current : Launch} (h : Assigns s k row assigned)
      (hcurrent : s.launches k.launchId = some current)
      (hfree : s.locks k.launchId = none ∨ s.locks k.launchId = some c) :
      Moves settings s c k
        ((s.put k (row.flush assigned current k.began)).finish c k (.ok k.launchId))

theorem gate_moves (hphase : k.phase = .start)
    (hrow : s.launches k.launchId = some row) (check : Except HttpError Unit)
    (hretry : ∀ principal retry, k.op = .retry principal retry →
      authorizeRequester principal row "retry" = check)
    (hrefused : ∀ e, check = .error e → Answers s k (.error e)) :
    Moves settings s c k (s.gate c k check) := by
  cases check with
  | ok u => exact .silent (.authorize hphase hrow hretry)
  | error e => exact .answers (hrefused e rfl)

theorem firstRead_moves (hphase : k.phase = .start) : Moves settings s c k (s.firstRead c k) := by
  unfold State.firstRead
  split
  · rename_i hrow
    exact .answers (.absent hrow)
  rename_i row hrow
  cases hop : k.op with
  | view => exact .silent (.load hphase hop hrow)
  | report | cancel =>
    have hnot : ∀ p r, k.op ≠ .retry p r := by rw [hop]; exact nofun
    exact gate_moves hphase hrow _ (fun p r hr => absurd hr (hnot p r)) fun _ _ => .other hnot
  | retry principal retry =>
    refine gate_moves hphase hrow _ (fun p r hr => ?_) fun e he => .refused hphase hrow hop he
    rw [hop] at hr
    cases hr
    rfl
  | link sessionId =>
    have hnot : ∀ p r, k.op ≠ .retry p r := by rw [hop]; exact nofun
    dsimp only
    split
    · exact .answers (.other hnot)
    · rename_i workSession hsession
      split
      · exact .silent (.loadLink hphase hop hrow hsession)
      · exact .answers (.other hnot)

theorem settle_moves {now : Timestamp} {verdict : Verdict}
    (hphase : k.phase = .decided row now verdict) (h : s.settle c k row now verdict = some t) :
    Moves settings s c k t := by
  cases verdict with
  | keep =>
    cases h
    exact .silent (.keep hphase)
  | prolong expiresAt =>
    simp only [State.settle] at h
    split at h
    · rename_i hop
      obtain ⟨u, hu, rfl⟩ := map_eq_some_iff.mp h
      obtain ⟨current, hcurrent, hfree, rfl⟩ := write_eq hu
      exact .prolongs hphase hop hcurrent hfree
    · rename_i hop
      cases h
      exact .silent (.extend hphase (Bool.eq_false_iff.mpr hop))
  | expire openSession =>
    obtain ⟨u, hu, rfl⟩ := map_eq_some_iff.mp h
    obtain ⟨current, hcurrent, hfree, rfl⟩ := write_eq hu
    exact .expires hphase hcurrent hfree

theorem conclude_moves {locked : Bool} (hphase : k.phase = .checking locked row assigned)
    (h : s.conclude c k row assigned = some t) : Moves settings s c k t := by
  unfold State.conclude at h
  split at h
  · rename_i principal report hop
    have hnot : ∀ p r, k.op ≠ .retry p r := by rw [hop]; exact nofun
    split at h
    · cases h
      exact .answers (.other hnot)
    · rename_i hok
      obtain ⟨u, hu, rfl⟩ := map_eq_some_iff.mp h
      obtain ⟨current, hcurrent, hfree, rfl⟩ := write_eq hu
      exact .assigns (.report hop hphase hok) hcurrent hfree
  · rename_i principal cancel hop
    have hnot : ∀ p r, k.op ≠ .retry p r := by rw [hop]; exact nofun
    split at h
    · cases h
      exact .answers (.other hnot)
    · rename_i hok
      obtain ⟨u, hu, rfl⟩ := map_eq_some_iff.mp h
      obtain ⟨current, hcurrent, hfree, rfl⟩ := write_eq hu
      exact .assigns (.cancel hop hphase hok) hcurrent hfree
  · cases h

theorem reread_moves (hphase : k.phase = .committed) (h : s.reread c k = some t) :
    Moves settings s c k t := by
  unfold State.reread at h
  split at h
  · rename_i principal retry hop
    obtain ⟨row, hrow, hfree, rfl⟩ := lock_eq h
    exact .locks hrow hfree (.again hphase hop)
  · rename_i hnot
    obtain ⟨row, hrow, rfl⟩ := map_eq_some_iff.mp h
    exact .silent (.reread hphase hnot hrow)

theorem decideRetry_moves (hphase : k.phase = .relocked row)
    (h : s.decideRetry c k row = some t) : Moves settings s c k t := by
  unfold State.decideRetry at h
  split at h
  · rename_i principal retry hop
    split at h
    · rename_i existing hindex
      cases h
      exact .answers (.existing hop hindex)
    rename_i hindex
    split at h
    · rename_i hterminal
      cases h
      exact .silent (.toCreate hphase hindex hterminal)
    · cases h
      exact .answers (.live hphase hindex)
  · cases h

theorem advance_moves (h : s.advance settings c k = some t) : Moves settings s c k t := by
  unfold State.advance at h
  split at h
  · rename_i hphase
    cases h
    exact firstRead_moves hphase
  · rename_i hphase
    obtain ⟨row, hrow, hfree, rfl⟩ := lock_eq h
    exact .locks hrow hfree (.first hphase)
  · rename_i row hphase
    cases h
    exact .silent (.time hphase)
  · rename_i row now hphase
    cases h
    exact .silent (.decide hphase)
  · rename_i row now verdict hphase
    exact settle_moves hphase h
  · rename_i hphase
    exact reread_moves hphase h
  · rename_i locked row assigned hphase
    exact conclude_moves hphase h
  · rename_i row hphase
    exact decideRetry_moves hphase h
  · rename_i row hphase
    split at h
    · rename_i sessionId hop
      obtain ⟨u, hu, rfl⟩ := map_eq_some_iff.mp h
      obtain ⟨current, hcurrent, hfree, rfl⟩ := write_eq hu
      exact .assigns (.link hop hphase) hcurrent hfree
    · cases h
  · cases h
  · cases h

/-- What a caller writes: the row it loaded, and the row it assigned. -/
inductive Writes (s : State) (k : Caller) : Launch → Launch → Prop where
  | prolong {row now expiresAt} (hphase : k.phase = .decided row now (.prolong expiresAt))
      (hop : k.op.persistExtension = true) : Writes s k row (row.prolonged expiresAt)
  | expire {row now openSession} (hphase : k.phase = .decided row now (.expire openSession)) :
      Writes s k row (row.expired now)
  | assign {row assigned : Launch} (h : Assigns s k row assigned) : Writes s k row assigned

/-- How a row changes in a step: not at all, or by the write of one
caller that does not wait for the lock of another. -/
inductive RowStep (s : State) (a : Act) (id : Uuid) (r : Launch) : Launch → Prop where
  | same : RowStep s a id r r
  | written {c : CallerId} {k : Caller} {row assigned : Launch} (hact : a = .advance c)
      (hcaller : s.callers c = some k) (hid : k.launchId = id) (hwrites : Writes s k row assigned)
      (hfree : s.locks id = none ∨ s.locks id = some c) :
      RowStep s a id r (row.flush assigned r k.began)

theorem Moves.launches (h : Moves settings s c k t) :
    t.launches = s.launches ∨ ∃ row assigned current, Writes s k row assigned ∧
      s.launches k.launchId = some current ∧
      (s.locks k.launchId = none ∨ s.locks k.launchId = some c) ∧
      t.launches = Function.update s.launches k.launchId
        (some (row.flush assigned current k.began)) := by
  cases h with
  | silent | locks => exact .inl rfl
  | answers h =>
    rw [finish_eq]
    exact .inl rfl
  | prolongs hphase hop hcurrent hfree =>
    rw [nextTransaction_eq]
    exact .inr ⟨_, _, _, .prolong hphase hop, hcurrent, hfree, rfl⟩
  | expires hphase hcurrent hfree =>
    rw [nextTransaction_eq]
    exact .inr ⟨_, _, _, .expire hphase, hcurrent, hfree, rfl⟩
  | assigns h hcurrent hfree =>
    rw [finish_eq]
    exact .inr ⟨_, _, _, .assign h, hcurrent, hfree, rfl⟩

theorem insert_row {newId new} (hr : s.launches id = some r) (hfresh : s.launches newId = none) :
    Function.update s.launches newId (some new) id = some r := by
  rw [update_of_ne]
  · exact hr
  · rintro rfl
    rw [hfresh] at hr
    cases hr

theorem createRetry_eq {newId} (h : s.createRetry c k newId = some t) :
    ∃ principal retry row, k.op = .retry principal retry ∧ k.phase = .creating row ∧
      s.launches newId = none ∧ s.retryIndex k.launchId = none ∧ t = { s with
        launches := Function.update s.launches newId
          (some (stageLaunch row.projectId (userId principal) (row.retryOf retry)
            (row.attempt + 1) (some k.launchId) retry.replay s.clock k.began))
        retryIndex := Function.update s.retryIndex k.launchId (some newId)
        locks := s.locksWithout c k
        callers := Function.update s.callers c (some { k with phase := .done (.ok newId) }) } := by
  unfold State.createRetry at h
  split at h
  · rename_i principal retry row hop hphase
    split at h
    · rename_i hfresh
      cases h
      refine ⟨principal, retry, row, hop, hphase, hfresh.1, hfresh.2, ?_⟩
      rw [finish_eq]
      rfl
    · cases h
  · cases h

theorem refuseRetry_eq {e} (h : s.refuseRetry c k e = some t) :
    ∃ row, k.phase = .creating row ∧ t = s.finish c k (.error e) := by
  unfold State.refuseRetry at h
  split at h
  · rename_i row hphase
    exact ⟨row, hphase, (some.inj h).symm⟩
  · cases h

/-! ## Callers, new rows and the index -/

theorem Moves.callers (h : Moves settings s c k t) :
    ∃ k', t.callers = Function.update s.callers c (some k') ∧ k'.launchId = k.launchId ∧
      k'.op = k.op := by
  cases h with
  | silent | locks => exact ⟨_, rfl, rfl, rfl⟩
  | answers h =>
    rw [finish_eq]
    exact ⟨_, rfl, rfl, rfl⟩
  | prolongs | expires =>
    rw [nextTransaction_eq]
    exact ⟨_, rfl, rfl, rfl⟩
  | assigns h hcurrent hfree =>
    rw [finish_eq]
    exact ⟨_, rfl, rfl, rfl⟩

theorem Moves.retryIndex (h : Moves settings s c k t) : t.retryIndex = s.retryIndex := by
  cases h with
  | silent | locks => rfl
  | answers h => rw [finish_eq]
  | prolongs | expires =>
    rw [nextTransaction_eq]
    rfl
  | assigns h hcurrent hfree =>
    rw [finish_eq]
    rfl

/-- How the callers and the index change in a step. -/
inductive Acts (settings : Settings) (s : State) (a : Act) (t : State) : Prop where
  | environment (hcallers : t.callers = s.callers) (hindex : t.retryIndex = s.retryIndex)
  | call {c k'} (hact : ∃ launchId op, a = .call c launchId op) (hnew : s.callers c = none)
      (hphase : k'.phase = .start) (hcallers : t.callers = Function.update s.callers c (some k'))
      (hindex : t.retryIndex = s.retryIndex)
  | advance {c : CallerId} {k : Caller} (hact : a = .advance c) (hcaller : s.callers c = some k)
      (hmoves : Moves settings s c k t)
  | create {c k newId} (hact : a = .createRetry c newId) (hcaller : s.callers c = some k)
      (hcreate : s.createRetry c k newId = some t)
  | refuse {c k row e} (hact : a = .refuseRetry c e) (hcaller : s.callers c = some k)
      (hphase : k.phase = .creating row) (ht : t = s.finish c k (.error e))

/-- A row that a step inserts. -/
inductive Created (s : State) (a : Act) (id : Uuid) : Launch → Prop where
  | first {projectId requestedByUserId launchIn began}
      (hact : a = .create id projectId requestedByUserId launchIn began)
      (hbegan : began ≤ s.clock) :
      Created s a id (stageLaunch projectId requestedByUserId launchIn 1 none none s.clock began)
  | retry {c k principal retry row} (hact : a = .createRetry c id) (hcaller : s.callers c = some k)
      (hop : k.op = .retry principal retry) (hphase : k.phase = .creating row) :
      Created s a id (stageLaunch row.projectId (userId principal) (row.retryOf retry)
        (row.attempt + 1) (some k.launchId) retry.replay s.clock k.began)

/-- What a step does to the callers and the index, and to the launches. -/
theorem step_effects (h : step settings s a = some t) :
    Acts settings s a t ∧ (t.launches = s.launches ∨
      (∃ c k, a = .advance c ∧ s.callers c = some k ∧ Moves settings s c k t) ∨
      ∃ newId new, s.launches newId = none ∧ Created s a newId new ∧
        t.launches = Function.update s.launches newId (some new)) := by
  cases a with
  | advance c =>
    obtain ⟨k, hcaller, hadvance⟩ := bind_eq_some_iff.mp h
    have hmoves := advance_moves hadvance
    exact ⟨.advance rfl hcaller hmoves, .inr (.inl ⟨c, k, rfl, hcaller, hmoves⟩)⟩
  | createRetry c newId =>
    obtain ⟨k, hcaller, hcreate⟩ := bind_eq_some_iff.mp h
    refine ⟨.create rfl hcaller hcreate, .inr (.inr ?_)⟩
    obtain ⟨principal, retry, row, hop, hphase, hfresh, -, rfl⟩ := createRetry_eq hcreate
    exact ⟨newId, _, hfresh, .retry rfl hcaller hop hphase, rfl⟩
  | refuseRetry c e =>
    obtain ⟨k, hcaller, hrefuse⟩ := bind_eq_some_iff.mp h
    obtain ⟨row, hphase, ht⟩ := refuseRetry_eq hrefuse
    refine ⟨.refuse rfl hcaller hphase ht, .inl ?_⟩
    rw [ht, finish_eq]
  | call c launchId op =>
    simp only [step] at h
    split at h
    · rename_i hnew
      cases h
      exact ⟨.call ⟨launchId, op, rfl⟩ hnew rfl rfl rfl, .inl rfl⟩
    · cases h
  | create launchId projectId requestedByUserId launchIn began =>
    simp only [step] at h
    split at h
    · rename_i hfresh
      cases h
      exact ⟨.environment rfl rfl, .inr (.inr ⟨launchId, _, hfresh.1, .first rfl hfresh.2, rfl⟩)⟩
    · cases h
  | startSession | claim =>
    simp only [step] at h
    split at h <;> cases h
    exact ⟨.environment rfl rfl, .inl rfl⟩
  | tick | touchSession | endSession | releaseClaim =>
    cases h
    exact ⟨.environment rfl rfl, .inl rfl⟩

theorem step_acts (h : step settings s a = some t) : Acts settings s a t := (step_effects h).1

/-- **A row changes by one write of one caller, or not at all.** -/
theorem row_step (h : step settings s a = some t)
    (hr : s.launches id = some r) : ∃ r', t.launches id = some r' ∧ RowStep s a id r r' := by
  obtain hsame | ⟨c, k, rfl, hcaller, hmoves⟩ | ⟨newId, new, hfresh, -, hnew⟩ := (step_effects h).2
  · exact ⟨r, hsame ▸ hr, .same⟩
  · obtain hsame | ⟨row, assigned, current, hwrites, hcurrent, hfree, hput⟩ := hmoves.launches
    · exact ⟨r, hsame ▸ hr, .same⟩
    rw [hput]
    by_cases hid : id = k.launchId
    · subst hid
      rw [hcurrent] at hr
      cases hr
      exact ⟨_, update_self .., .written rfl hcaller rfl hwrites hfree⟩
    · rw [update_of_ne hid]
      exact ⟨r, hr, .same⟩
  · rw [hnew]
    exact ⟨r, insert_row hr hfresh, .same⟩

theorem row_origin {r'} (h : step settings s a = some t) (hr' : t.launches id = some r') :
    (∃ r, s.launches id = some r ∧ RowStep s a id r r') ∨
      (s.launches id = none ∧ Created s a id r') := by
  cases hr : s.launches id with
  | some r =>
    obtain ⟨r'', hr'', hrow⟩ := row_step h hr
    rw [hr'] at hr''
    cases hr''
    exact .inl ⟨r, rfl, hrow⟩
  | none =>
    refine .inr ⟨rfl, ?_⟩
    have hother : t.launches id ≠ s.launches id := by
      rw [hr', hr]
      exact nofun
    obtain hsame | ⟨c, k, -, -, hmoves⟩ | ⟨newId, new, -, hcreated, hnew⟩ := (step_effects h).2
    · exact absurd (congrFun hsame id) hother
    · obtain hsame | ⟨row, assigned, current, -, hcurrent, -, hput⟩ := hmoves.launches
      · exact absurd (congrFun hsame id) hother
      rw [hput] at hother
      have hid : id = k.launchId := by
        by_contra hid
        exact hother (update_of_ne hid ..)
      rw [hid, hcurrent] at hr
      cases hr
    · by_cases hid : id = newId
      · subst hid
        rw [hnew, update_self] at hr'
        cases hr'
        exact hcreated
      · rw [hnew, update_of_ne hid] at hother
        exact absurd rfl hother

theorem callers_after {k'} (h : step settings s a = some t) (hk' : t.callers c = some k') :
    s.callers c = some k' ∨ k'.phase = .start ∨ (∃ result, k'.phase = .done result) ∨
      ∃ k, a = .advance c ∧ s.callers c = some k ∧ Moves settings s c k t := by
  have hupdate : ∀ {c₀ k₀}, t.callers = Function.update s.callers c₀ (some k₀) →
      s.callers c = some k' ∨ (c₀ = c ∧ k₀ = k') := by
    intro c₀ k₀ hcallers
    rw [hcallers] at hk'
    by_cases hc : c = c₀
    · subst hc
      rw [update_self] at hk'
      exact .inr ⟨rfl, some.inj hk'⟩
    · rw [update_of_ne hc] at hk'
      exact .inl hk'
  cases step_acts h with
  | environment hcallers hindex =>
    rw [hcallers] at hk'
    exact .inl hk'
  | call hact hnew hphase hcallers hindex =>
    rcases hupdate hcallers with hsame | ⟨-, rfl⟩
    · exact .inl hsame
    · exact .inr (.inl hphase)
  | advance hact hcaller hmoves =>
    obtain ⟨k₀, hcallers, -, -⟩ := hmoves.callers
    rcases hupdate hcallers with hsame | ⟨rfl, -⟩
    · exact .inl hsame
    · exact .inr (.inr (.inr ⟨_, hact, hcaller, hmoves⟩))
  | create hact hcaller hcreate =>
    obtain ⟨principal, retry, row, -, -, -, -, rfl⟩ := createRetry_eq hcreate
    rcases hupdate rfl with hsame | ⟨-, rfl⟩
    · exact .inl hsame
    · exact .inr (.inr (.inl ⟨_, rfl⟩))
  | refuse hact hcaller hphase ht =>
    rw [finish_eq] at ht
    rcases hupdate (congrArg State.callers ht) with hsame | ⟨-, rfl⟩
    · exact .inl hsame
    · exact .inr (.inr (.inl ⟨_, rfl⟩))

theorem RowStep.fixed {r' : Launch} (h : RowStep s a id r r') :
    r'.projectId = r.projectId ∧ r'.requestedByUserId = r.requestedByUserId ∧
      r'.attempt = r.attempt ∧ r'.retryOfLaunchId = r.retryOfLaunchId ∧
      r'.createdAt = r.createdAt ∧ r'.taskId = r.taskId ∧ r'.machineId = r.machineId := by
  cases h with
  | same | written => exact ⟨rfl, rfl, rfl, rfl, rfl, rfl, rfl⟩

end StudioOS.Launches
