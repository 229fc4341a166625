import StudioOS.Launch.Retry

/-!
# Launch — Expiry

How long a launch may live, and what its expiry takes with it. A prolongation moves `expires_at`
forward, up to the hard deadline; an expiry closes the linked session and releases the claims in the
commit that sets the status.
-/

namespace StudioOS.Launches

open Option Function Authz Runs

variable {settings : Settings} {s t : State} {c : CallerId} {k : Caller}

variable {row r : Launch} {now expiresAt : Timestamp} {openSession : Option Uuid} {a : Act}
  {id sessionId : Uuid} {locked : Bool}

/-- An evaluation without the row lock is not overtaken: its prolongation
does not take back a longer one, its expiry finds the status and the
session it read. And a launch is created within its hard deadline. -/
def timely (s : State) : Act → Bool
  | .advance c =>
    match s.callers c with
    | none => true
    | some k =>
      match k.phase with
      | .decided _ _ (.prolong expiresAt) =>
        k.holds || (s.launches k.launchId).all fun r => r.expiresAt ≤ expiresAt
      | .decided row _ (.expire _) =>
        k.holds || (s.launches k.launchId).all fun r =>
          r.status = .expired ∨ r.status = row.status ∧ r.sessionId = row.sessionId
      | _ => true
  | .create _ _ _ launchIn began =>
    s.clock + seconds launchIn.expiresIn.seconds ≤ began + seconds launchMaxTtlSeconds
  | .createRetry c _ =>
    match s.callers c with
    | none => true
    | some k =>
      match k.op with
      | .retry _ retry =>
        s.clock + seconds retry.expiresIn.seconds ≤ k.began + seconds launchMaxTtlSeconds
      | _ => true
  | _ => true

def Timely (s : State) (a : Act) : Prop := timely s a = true

instance (s : State) (a : Act) : Decidable (Timely s a) :=
  inferInstanceAs (Decidable (_ = true))

theorem Timely.prolong (h : Timely s (.advance c))
    (hcaller : s.callers c = some k) (hphase : k.phase = .decided row now (.prolong expiresAt))
    (hr : s.launches k.launchId = some r) : k.holds = true ∨ r.expiresAt ≤ expiresAt := by
  simpa [Timely, timely, hcaller, hphase, hr] using h

theorem Timely.expire (h : Timely s (.advance c)) (hcaller : s.callers c = some k)
    (hphase : k.phase = .decided row now (.expire openSession))
    (hr : s.launches k.launchId = some r) : k.holds = true ∨ r.status = .expired ∨
      r.status = row.status ∧ r.sessionId = row.sessionId := by
  simpa [Timely, timely, hcaller, hphase, hr] using h

theorem Timely.created (h : Timely s a) (hr : Created s a id r) : r.expiresAt ≤ r.hardDeadline := by
  cases hr with
  | first hact hbegan =>
    subst hact
    exact of_decide_eq_true h
  | retry hact hcaller hop hphase =>
    subst hact
    simp only [Timely, timely, hcaller, hop, decide_eq_true_eq] at h
    exact h

theorem Timely.expiryFresh (h : Timely s a) : ExpiryFresh s a := by
  cases a with
  | advance c =>
    cases hcaller : s.callers c with
    | none => simp [ExpiryFresh, Launches.expiryFresh, hcaller]
    | some k =>
      cases hphase : k.phase with
      | decided row now verdict =>
        cases verdict with
        | expire openSession =>
          cases hr : s.launches k.launchId with
          | none => simp [ExpiryFresh, Launches.expiryFresh, hcaller, hphase, hr]
          | some r =>
            rcases h.expire hcaller hphase hr with hholds | hexpired | ⟨hstatus, -⟩
            · simp [ExpiryFresh, Launches.expiryFresh, hcaller, hphase, hholds]
            · simp [ExpiryFresh, Launches.expiryFresh, hcaller, hphase, hr, hexpired]
            · simp [ExpiryFresh, Launches.expiryFresh, hcaller, hphase, hr, hstatus]
        | keep | prolong => simp [ExpiryFresh, Launches.expiryFresh, hcaller, hphase]
      | _ => simp [ExpiryFresh, Launches.expiryFresh, hcaller, hphase]
  | _ => rfl

/-- A session stays in the table, and stays ended. -/
def SessionsGrow (s t : State) : Prop :=
  ∀ id w, s.sessions id = some w →
    ∃ w', t.sessions id = some w' ∧ (w.endedAt.isSome = true → w'.endedAt.isSome = true)

theorem sessionsGrow_same (h : t.sessions = s.sessions) : SessionsGrow s t := by
  intro id w hw
  exact ⟨w, by rw [h]; exact hw, fun hended => hended⟩

theorem sessionsGrow_update {f} (hf : ∀ w, w.endedAt.isSome = true → (f w).endedAt.isSome = true)
    (h : t.sessions = Function.update s.sessions sessionId ((s.sessions sessionId).map f)) :
    SessionsGrow s t := by
  intro id w hw
  rw [h]
  by_cases hid : id = sessionId
  · subst hid
    rw [update_self, hw]
    exact ⟨f w, rfl, hf w⟩
  · rw [update_of_ne hid]
    exact ⟨w, hw, fun hended => hended⟩

theorem sessionsGrow_handOff (row) (openSession) : SessionsGrow s (s.handOff row openSession) := by
  cases openSession with
  | none => exact sessionsGrow_same rfl
  | some sessionId => exact sessionsGrow_update (fun _ _ => rfl) rfl

theorem sessions_step (h : step settings s a = some t) : SessionsGrow s t := by
  cases a with
  | advance c =>
    obtain ⟨k, hcaller, hadvance⟩ := bind_eq_some_iff.mp h
    cases advance_moves hadvance with
    | silent | locks => exact sessionsGrow_same rfl
    | answers hanswers =>
      rw [finish_eq]
      exact sessionsGrow_same rfl
    | prolongs hphase hop hcurrent hfree =>
      rw [nextTransaction_eq]
      exact sessionsGrow_same rfl
    | @expires row current now openSession hphase hcurrent hfree =>
      rw [nextTransaction_eq]
      exact sessionsGrow_handOff row openSession
    | assigns hassigns hcurrent hfree =>
      rw [finish_eq]
      exact sessionsGrow_same rfl
  | createRetry c newId =>
    obtain ⟨k, -, hcreate⟩ := bind_eq_some_iff.mp h
    obtain ⟨-, -, -, -, -, -, -, rfl⟩ := createRetry_eq hcreate
    exact sessionsGrow_same rfl
  | refuseRetry c e =>
    obtain ⟨k, -, hrefuse⟩ := bind_eq_some_iff.mp h
    obtain ⟨-, -, rfl⟩ := refuseRetry_eq hrefuse
    rw [finish_eq]
    exact sessionsGrow_same rfl
  | startSession sessionId machineId taskId =>
    simp only [step] at h
    split at h
    · rename_i hnew
      cases h
      intro id w hw
      refine ⟨w, ?_, fun hended => hended⟩
      dsimp only
      rw [update_of_ne]
      · exact hw
      · rintro rfl
        rw [hw] at hnew
        cases hnew
    · cases h
  | touchSession sessionId =>
    cases h
    exact @sessionsGrow_update s _ sessionId (fun w => { w with lastActivityAt := some s.clock })
      (fun _ hended => hended) rfl
  | endSession sessionId =>
    cases h
    exact sessionsGrow_update (fun _ _ => rfl) rfl
  | create | call | claim =>
    simp only [step] at h
    split at h <;> cases h
    exact sessionsGrow_same rfl
  | tick | releaseClaim =>
    cases h
    exact sessionsGrow_same rfl

/-- What no write changes. -/
structure SameLaunch (row r : Launch) : Prop where
  createdAt : row.createdAt = r.createdAt
  taskId : row.taskId = r.taskId
  machineId : row.machineId = r.machineId

theorem SameLaunch.refl (r) : SameLaunch r r := ⟨rfl, rfl, rfl⟩

variable {r' : Launch} {loaded : Nat} {assigned : Launch} {current : Nat} {updatedAt : Timestamp}
  {verdict : Verdict} {principal : Principal}

theorem SameLaunch.step (h : SameLaunch row r)
    (hrow : RowStep s a id r r') : SameLaunch row r' := by
  obtain ⟨-, -, -, -, hcreated, htask, hmachine⟩ := hrow.fixed
  exact ⟨h.createdAt.trans hcreated.symm, h.taskId.trans htask.symm,
    h.machineId.trans hmachine.symm⟩

theorem SameLaunch.hardDeadline (h : SameLaunch row r) : row.hardDeadline = r.hardDeadline := by
  rw [Launch.hardDeadline, Launch.hardDeadline, h.createdAt]

/-- A row as it stands in the table, or stood there. -/
structure SoundRow (s : State) (r : Launch) : Prop where
  bounded : r.expiresAt ≤ r.hardDeadline
  unfinished : r.status.isTerminal = false → r.finishedAt = none
  /-- The foreign key to the sessions. -/
  linked : ∀ sessionId, r.sessionId = some sessionId → ∃ w, s.sessions sessionId = some w

theorem SoundRow.grow (h : SoundRow s r) (hsessions : SessionsGrow s t) : SoundRow t r where
  bounded := h.bounded
  unfinished := h.unfinished
  linked := by
    intro sessionId hid
    obtain ⟨w, hw⟩ := h.linked sessionId hid
    obtain ⟨w', hw', -⟩ := hsessions sessionId w hw
    exact ⟨w', hw'⟩

/-- An expiry with this session leaves the linked one ended. -/
def Closes (s : State) (row : Launch) (openSession : Option Uuid) : Prop :=
  ∀ sessionId, row.sessionId = some sessionId → openSession = some sessionId ∨
    ∃ w, s.sessions sessionId = some w ∧ w.endedAt.isSome = true

theorem Closes.grow (h : Closes s row openSession)
    (hsessions : SessionsGrow s t) : Closes t row openSession := by
  intro sessionId hid
  rcases h sessionId hid with hopen | ⟨w, hw, hended⟩
  · exact .inl hopen
  · obtain ⟨w', hw', hstill⟩ := hsessions sessionId w hw
    exact .inr ⟨w', hw', hstill hended⟩

theorem closes_evaluate
    (h : evaluate settings row now (linkedOpenSession s.sessions row) = .expire openSession)
    (hrow : SoundRow s row) : Closes s row openSession := by
  intro sessionId hid
  obtain ⟨w, hw⟩ := hrow.linked sessionId hid
  have hopen := evaluate_expire h
  cases hended : w.endedAt with
  | some endedAt => exact .inr ⟨w, hw, by rw [hended]; rfl⟩
  | none =>
    left
    rw [hopen]
    simp [linkedOpenSession, hid, hw, hended]

/-- What a caller carries through its evaluation. -/
structure ExpiryCaller (s : State) (k : Caller) : Prop where
  carries : ∀ row, k.phase.row = some row →
    SoundRow s row ∧ ∃ r, s.launches k.launchId = some r ∧ SameLaunch row r
  closes : ∀ row now openSession, k.phase = .decided row now (.expire openSession) →
    Closes s row openSession
  checking : ∀ locked row assigned, k.phase = .checking locked row assigned →
    ∃ expiresAt, assigned = row.prolonged expiresAt ∧ row.expiresAt ≤ expiresAt ∧
      expiresAt ≤ row.hardDeadline
  linking : ∀ row sessionId, k.phase = .linking row → k.op = .link sessionId →
    ∃ w, s.sessions sessionId = some w

/-- **The expiry invariant.** -/
structure ExpiryInv (s : State) : Prop where
  status : StatusInv s
  rows : ∀ id r, s.launches id = some r → SoundRow s r
  callers : ∀ c k, s.callers c = some k → ExpiryCaller s k

theorem expiryInv_initial : ExpiryInv State.initial where
  status := statusInv_initial
  rows := fun id r h => by cases h
  callers := fun c k h => by cases h

/-! ## One write -/

/-- What a step does to a row, as far as its life goes. -/
structure ExpiryBounds (s t : State) (r r' : Launch) : Prop where
  grows : r.expiresAt ≤ r'.expiresAt
  bounded : r'.expiresAt ≤ r'.createdAt + seconds launchMaxTtlSeconds
  created : r'.createdAt = r.createdAt
  /-- A prolongation writes `expires_at`, and `updated_at` with it; that of
  `report_launch` and `cancel_launch` goes with what they write. -/
  prolongs : r'.expiresAt ≠ r.expiresAt → ∃ updatedAt,
    r' = { r.prolonged r'.expiresAt with updatedAt := updatedAt } ∨
      (∃ report now, r' =
        { (r.prolonged r'.expiresAt).reported report now with updatedAt := updatedAt }) ∨
      ∃ now, r' = { (r.prolonged r'.expiresAt).cancelled now with updatedAt := updatedAt }
  /-- An expiry takes the session and the claims along. -/
  expires : r.status ≠ .expired → r'.status = .expired →
    r'.finishedAt.isSome = true ∧
      (∀ sessionId, r'.sessionId = some sessionId →
        ∃ w, t.sessions sessionId = some w ∧ w.endedAt.isSome = true) ∧
      ∀ id claim, t.claims id = some claim → claim.taskId = some r'.taskId →
        claim.claimedByMachineId = r'.machineId → claim.status = .released

theorem ExpiryBounds.still (hr : SoundRow s r)
    (hexpires : r'.expiresAt = r.expiresAt) (hcreated : r'.createdAt = r.createdAt)
    (hstatus : r'.status = .expired → r.status = .expired) : ExpiryBounds s t r r' where
  grows := Nat.le_of_eq hexpires.symm
  bounded := by
    rw [hexpires, hcreated]
    exact hr.bounded
  created := hcreated
  prolongs := fun hne => absurd hexpires hne
  expires := fun hnot hexpired => absurd (hstatus hexpired) hnot

theorem flush_prolonged (row r : Launch) (expiresAt began) :
    ∃ updatedAt, row.flush (row.prolonged expiresAt) r began =
      { r.prolonged (flushed row.expiresAt expiresAt r.expiresAt) with updatedAt := updatedAt } := by
  refine ⟨(row.flush (row.prolonged expiresAt) r began).updatedAt, ?_⟩
  simp [Launch.flush, Launch.prolonged, flushed_self]

theorem flushed_le {assigned bound} (hassigned : assigned ≤ bound)
    (hcurrent : current ≤ bound) : flushed loaded assigned current ≤ bound := by
  unfold flushed
  split
  · exact hcurrent
  · exact hassigned

theorem le_flushed {assigned} (h : current ≤ assigned) :
    current ≤ flushed loaded assigned current := by
  unfold flushed
  split
  · exact Nat.le_refl _
  · exact h

theorem ExpiryBounds.prolonged
    (hgrows : r.expiresAt ≤ expiresAt) (hbound : expiresAt ≤ r.hardDeadline) :
    ExpiryBounds s t r { r.prolonged expiresAt with updatedAt := updatedAt } where
  grows := hgrows
  bounded := hbound
  created := rfl
  prolongs := fun _ => ⟨updatedAt, .inl rfl⟩
  expires := fun hnot hexpired => absurd hexpired hnot

theorem SoundRow.prolonged (h : SoundRow s r) (hbound : expiresAt ≤ r.hardDeadline) :
    SoundRow s { r.prolonged expiresAt with updatedAt := updatedAt } :=
  ⟨hbound, h.unfinished, h.linked⟩

theorem ExpiryInv.decided (h : ExpiryInv s) (hcaller : s.callers c = some k)
    (hphase : k.phase = .decided row now verdict) (hr : s.launches k.launchId = some r) :
    SoundRow s row ∧ SameLaunch row r ∧ Older row r ∧ verdict.Of row now ∧
      (k.holds = true → row = r) := by
  have hrow : k.phase.row = some row := by
    rw [hphase]
    rfl
  obtain ⟨hsound, r₀, hr₀, hsame⟩ := (h.callers c k hcaller).carries row hrow
  obtain ⟨r₁, hr₁, holder⟩ := (h.status.callers c k hcaller).carries row hrow
  rw [hr] at hr₀ hr₁
  cases hr₀
  cases hr₁
  exact ⟨hsound, hsame, holder, (h.status.callers c k hcaller).decided row now verdict hphase,
    fun hholds => h.status.holders.current hcaller hholds hrow hr⟩

theorem ExpiryInv.prolongs (h : ExpiryInv s) (hguard : Timely s (.advance c))
    (hcaller : s.callers c = some k) (hphase : k.phase = .decided row now (.prolong expiresAt))
    (hr : s.launches k.launchId = some r) :
    ExpiryBounds s t r (row.flush (row.prolonged expiresAt) r k.began) ∧
      SoundRow s (row.flush (row.prolonged expiresAt) r k.began) := by
  obtain ⟨-, hsame, -, ⟨-, hdue, -, hlater, hbound⟩, hcurrent⟩ := h.decided hcaller hphase hr
  have hsound : SoundRow s r := h.rows _ r hr
  have hgrows : r.expiresAt ≤ expiresAt := by
    rcases hguard.prolong hcaller hphase hr with hholds | hgrows
    · rw [← hcurrent hholds]
      exact Nat.le_trans hdue hlater
    · exact hgrows
  rw [hsame.hardDeadline] at hbound
  obtain ⟨updatedAt, hflush⟩ := flush_prolonged row r expiresAt k.began
  rw [hflush]
  have hbound' : flushed row.expiresAt expiresAt r.expiresAt ≤ r.hardDeadline :=
    flushed_le hbound hsound.bounded
  exact ⟨.prolonged (le_flushed hgrows) hbound', hsound.prolonged hbound'⟩

theorem expire_tables (h : step settings s (.advance c) = some t) (hcaller : s.callers c = some k)
    (hphase : k.phase = .decided row now (.expire openSession))
    (hr : s.launches k.launchId = some r) :
    t.launches k.launchId = some (row.flush (row.expired now) r k.began) ∧
      t.sessions = (s.handOff row openSession).sessions ∧
      t.claims = (s.handOff row openSession).claims := by
  simp only [step, hcaller, bind_some, State.advance, hphase, State.settle] at h
  obtain ⟨u, hu, rfl⟩ := map_eq_some_iff.mp h
  obtain ⟨current, hcurrent, hfree, rfl⟩ := write_eq hu
  rw [hr] at hcurrent
  cases hcurrent
  rw [nextTransaction_eq]
  exact ⟨update_self .., rfl, rfl⟩

theorem Closes.handOff (h : Closes s row openSession)
    (hrow : SoundRow s row) (hid : row.sessionId = some sessionId) :
    ∃ w, (s.handOff row openSession).sessions sessionId = some w ∧ w.endedAt.isSome = true := by
  rcases h sessionId hid with hopen | ⟨w, hw, hended⟩
  · obtain ⟨w, hw⟩ := hrow.linked sessionId hid
    subst hopen
    refine ⟨w.close s.clock, ?_, rfl⟩
    change Function.update s.sessions sessionId _ sessionId = _
    rw [update_self, hw]
    rfl
  · obtain ⟨w', hw', hstill⟩ := sessionsGrow_handOff row openSession sessionId w hw
    exact ⟨w', hw', hstill hended⟩

theorem handOff_claims {claim} (h : (s.handOff row openSession).claims id = some claim)
    (htask : claim.taskId = some row.taskId) (hmachine : claim.claimedByMachineId = row.machineId) :
    claim.status = .released := by
  obtain ⟨before, -, rfl⟩ := map_eq_some_iff.mp h
  unfold ResourceClaim.releaseOf at htask hmachine ⊢
  split
  · rfl
  · rename_i hnot
    rw [if_neg hnot] at htask hmachine
    cases hstatus : before.status with
    | released => rfl
    | active => exact absurd ⟨htask, hstatus, hmachine⟩ hnot

theorem ExpiryInv.expires (h : ExpiryInv s) (hguard : Timely s (.advance c))
    (hcaller : s.callers c = some k) (hphase : k.phase = .decided row now (.expire openSession))
    (hr : s.launches k.launchId = some r) (hstep : step settings s (.advance c) = some t) :
    ExpiryBounds s t r (row.flush (row.expired now) r k.began) ∧
      SoundRow s (row.flush (row.expired now) r k.began) := by
  obtain ⟨hrow, hsame, -, ⟨hlive, hdue⟩, hcurrent⟩ := h.decided hcaller hphase hr
  have hsound : SoundRow s r := h.rows _ r hr
  obtain ⟨hstatus, -⟩ := flush_expired_status hlive r now k.began
  have hexpires : (row.flush (row.expired now) r k.began).expiresAt = r.expiresAt :=
    flushed_self _ _
  have hsession : (row.flush (row.expired now) r k.began).sessionId = r.sessionId :=
    flushed_self _ _
  have hfinished : (row.flush (row.expired now) r k.began).finishedAt = some now := by
    refine flushed_of_ne ?_ _
    rw [hrow.unfinished hlive]
    exact some_ne_none now
  constructor
  · refine ⟨Nat.le_of_eq hexpires.symm, ?_, rfl, fun hne => absurd hexpires hne, fun hnot _ => ?_⟩
    · rw [hexpires]
      exact hsound.bounded
    have hlinked : r.sessionId = row.sessionId := by
      rcases hguard.expire hcaller hphase hr with hholds | hexpired | ⟨-, hlinked⟩
      · rw [hcurrent hholds]
      · exact absurd hexpired hnot
      · exact hlinked
    obtain ⟨-, hsessions, hclaims⟩ := expire_tables hstep hcaller hphase hr
    rw [hfinished, hsession, hlinked, hsessions, hclaims]
    refine ⟨rfl, fun sessionId hid => ?_, fun id claim hclaim htask hmachine => ?_⟩
    · exact ((h.callers c k hcaller).closes row now openSession hphase).handOff hrow hid
    · exact handOff_claims hclaim (htask.trans (congrArg some hsame.taskId.symm))
        (hmachine.trans hsame.machineId.symm)
  · refine ⟨?_, fun hopen => ?_, ?_⟩
    · rw [hexpires]
      exact hsound.bounded
    · rw [hstatus] at hopen
      cases hopen
    · rw [hsession]
      exact hsound.linked

theorem allowed_not_expired {a b actor} (h : allowedTransitions a b = some actor)
    (hactor : actor ≠ .server) : b ≠ .expired := by
  rintro rfl
  rw [allowed_expired (allowed_rank h).1] at h
  exact hactor (some.inj h).symm

theorem reportedSessionOk_linked {sessions launch}
    (h : reportedSessionOk sessions launch (some sessionId) = true) :
    ∃ w, sessions sessionId = some w := by
  unfold reportedSessionOk at h
  dsimp only at h
  split at h
  · cases h
  · rename_i w hw
    exact ⟨w, hw⟩

theorem ExpiryInv.reports (h : ExpiryInv s) (hcaller : s.callers c = some k) {report}
    (hop : k.op = .report principal report) (hphase : k.phase = .checking locked row assigned)
    (hok : checkReport s.sessions assigned report = .ok ()) (hr : s.launches k.launchId = some r) :
    ExpiryBounds s t r (row.flush (assigned.reported report s.clock) r k.began) ∧
      SoundRow s (row.flush (assigned.reported report s.clock) r k.began) := by
  obtain ⟨hallowed, hsession⟩ := checkReport_ok hok
  have hlive : assigned.status.isTerminal = false := (allowed_rank hallowed).1
  have hcurrent : row = r := h.status.checked_current hcaller hphase (by rw [hop]; rfl) hr hlive
  subst hcurrent
  have hsound : SoundRow s row := h.rows _ row hr
  obtain ⟨expiresAt, rfl, hgrows, hbound⟩ := (h.callers c k hcaller).checking locked row _ hphase
  rw [Launch.flush_same]
  constructor
  · refine ⟨hgrows, hbound, rfl, fun _ => ⟨_, .inr (.inl ⟨report, s.clock, rfl⟩)⟩,
      fun _ hexpired => ?_⟩
    exact absurd hexpired (allowed_not_expired hallowed (by decide))
  refine ⟨hbound, fun hopen => ?_, fun sessionId hid => ?_⟩
  · change (if report.status.isTerminal then some s.clock else row.finishedAt) = none
    change report.status.isTerminal = false at hopen
    rw [hopen]
    exact hsound.unfinished hlive
  change (if report.sessionId.isSome then report.sessionId else row.sessionId) = _ at hid
  cases hreported : report.sessionId with
  | none =>
    rw [hreported] at hid
    exact hsound.linked sessionId hid
  | some reported =>
    rw [hreported] at hid hsession
    cases hid
    exact reportedSessionOk_linked hsession

theorem ExpiryInv.cancels (h : ExpiryInv s) (hcaller : s.callers c = some k) {cancel}
    (hop : k.op = .cancel principal cancel) (hphase : k.phase = .checking locked row assigned)
    (hok : checkCancel assigned cancel = .ok ()) (hr : s.launches k.launchId = some r) :
    ExpiryBounds s t r (row.flush (assigned.cancelled s.clock) r k.began) ∧
      SoundRow s (row.flush (assigned.cancelled s.clock) r k.began) := by
  have hlive : assigned.status.isTerminal = false := (allowed_rank (checkCancel_ok hok)).1
  have hcurrent : row = r := h.status.checked_current hcaller hphase (by rw [hop]; rfl) hr hlive
  subst hcurrent
  obtain ⟨expiresAt, rfl, hgrows, hbound⟩ := (h.callers c k hcaller).checking locked row _ hphase
  rw [Launch.flush_same]
  constructor
  · refine ⟨hgrows, hbound, rfl, fun _ => ⟨_, .inr (.inr ⟨s.clock, rfl⟩)⟩, fun _ hexpired => ?_⟩
    cases hexpired
  · exact ⟨hbound, fun hopen => (by cases hopen), (h.rows _ row hr).linked⟩

theorem ExpiryInv.links (h : ExpiryInv s) (hcaller : s.callers c = some k)
    (hop : k.op = .link sessionId) (hphase : k.phase = .linking row)
    (hr : s.launches k.launchId = some r) :
    ExpiryBounds s t r (row.flush (row.linked sessionId) r k.began) ∧
      SoundRow s (row.flush (row.linked sessionId) r k.began) := by
  have hsound : SoundRow s r := h.rows _ r hr
  have hexpires : (row.flush (row.linked sessionId) r k.began).expiresAt = r.expiresAt :=
    flushed_self _ _
  have hstatus : (row.flush (row.linked sessionId) r k.began).status = r.status := flushed_self _ _
  have hfinished : (row.flush (row.linked sessionId) r k.began).finishedAt = r.finishedAt :=
    flushed_self _ _
  constructor
  · exact .still hsound hexpires rfl fun hexpired => hstatus.symm.trans hexpired
  refine ⟨?_, fun hopen => ?_, fun sessionId' hid => ?_⟩
  · rw [hexpires]
    exact hsound.bounded
  · rw [hstatus] at hopen
    rw [hfinished]
    exact hsound.unfinished hopen
  change flushed row.sessionId (some sessionId) r.sessionId = some sessionId' at hid
  unfold flushed at hid
  split at hid
  · exact hsound.linked sessionId' hid
  · cases hid
    exact (h.callers c k hcaller).linking row sessionId hphase hop

/-- **What a timely step does to a row.** -/
theorem expiry_row_step (h : ExpiryInv s) (hguard : Timely s a)
    (hstep : step settings s a = some t) (hr : s.launches id = some r) :
    ∃ r', t.launches id = some r' ∧ ExpiryBounds s t r r' ∧ SoundRow s r' := by
  obtain ⟨r', hr', hrow⟩ := row_step hstep hr
  refine ⟨r', hr', ?_⟩
  cases hrow with
  | same => exact ⟨.still (h.rows id r hr) rfl rfl fun hexpired => hexpired, h.rows id r hr⟩
  | @written c k row assigned hact hcaller hid hwrites hfree =>
    subst hact
    subst hid
    cases hwrites with
    | prolong hphase hop => exact h.prolongs hguard hcaller hphase hr
    | expire hphase => exact h.expires hguard hcaller hphase hr hstep
    | assign hassigns =>
      cases hassigns with
      | report hop hphase hok => exact h.reports hcaller hop hphase hok hr
      | cancel hop hphase hok => exact h.cancels hcaller hop hphase hok hr
      | link hop hphase => exact h.links hcaller hop hphase hr

/-! ## The invariant along a run -/

theorem ExpiryCaller.mono (h : ExpiryCaller s k) (hsessions : SessionsGrow s t)
    (hrows : ∀ id row r, s.launches id = some r → SameLaunch row r →
      ∃ r', t.launches id = some r' ∧ SameLaunch row r') : ExpiryCaller t k where
  carries := by
    intro row hrow
    obtain ⟨hsound, r, hr, hsame⟩ := h.carries row hrow
    exact ⟨hsound.grow hsessions, hrows _ row r hr hsame⟩
  closes := fun row now openSession hphase => (h.closes row now openSession hphase).grow hsessions
  checking := h.checking
  linking := by
    intro row sessionId hphase hop
    obtain ⟨w, hw⟩ := h.linking row sessionId hphase hop
    obtain ⟨w', hw', -⟩ := hsessions sessionId w hw
    exact ⟨w', hw'⟩

/-- The phases in which nothing beside the row matters. -/
def Phase.quiet : Phase → Bool
  | .decided .. | .checking .. | .linking _ => false
  | _ => true

theorem ExpiryCaller.quiet (hquiet : k.phase.quiet = true)
    (hcarries : ∀ row, k.phase.row = some row →
      SoundRow s row ∧ ∃ r, s.launches k.launchId = some r ∧ SameLaunch row r) :
    ExpiryCaller s k where
  carries := hcarries
  closes := fun row now openSession h => by rw [h] at hquiet; cases hquiet
  checking := fun locked row assigned h => by rw [h] at hquiet; cases hquiet
  linking := fun row sessionId h => by rw [h] at hquiet; cases hquiet

theorem ExpiryCaller.blank (hquiet : k.phase.quiet = true) (hrow : k.phase.row = none) :
    ExpiryCaller s k :=
  .quiet hquiet fun row h => by rw [hrow] at h; cases h

theorem ExpiryCaller.carrying (hquiet : k.phase.quiet = true) (hrow : k.phase.row = some row)
    (hcarries : SoundRow s row ∧ ∃ r, s.launches k.launchId = some r ∧ SameLaunch row r) :
    ExpiryCaller s k :=
  .quiet hquiet fun row' h => by
    rw [hrow] at h
    cases h
    exact hcarries

theorem ExpiryCaller.checked (hphase : k.phase = .checking locked row (row.prolonged expiresAt))
    (hcarries : SoundRow s row ∧ ∃ r, s.launches k.launchId = some r ∧ SameLaunch row r)
    (hgrows : row.expiresAt ≤ expiresAt) (hbound : expiresAt ≤ row.hardDeadline) :
    ExpiryCaller s k where
  carries := fun row' h => by
    rw [hphase] at h
    cases h
    exact hcarries
  closes := fun row' now openSession h => by rw [hphase] at h; cases h
  checking := fun locked' row' assigned' h => by
    rw [hphase] at h
    cases h
    exact ⟨expiresAt, rfl, hgrows, hbound⟩
  linking := fun row' sessionId h => by rw [hphase] at h; cases h

theorem ExpiryCaller.kept
    (hcarries : SoundRow s row ∧ ∃ r, s.launches k.launchId = some r ∧ SameLaunch row r)
    (hgrows : row.expiresAt ≤ expiresAt) (hbound : expiresAt ≤ row.hardDeadline) :
    ExpiryCaller s { k with phase := k.kept row (row.prolonged expiresAt) } := by
  unfold Caller.kept
  cases hop : k.op with
  | view | link => exact .blank rfl rfl
  | retry principal retry => exact .carrying rfl rfl hcarries
  | report | cancel => exact .checked rfl hcarries hgrows hbound

theorem ExpiryCaller.evaluated {began} :
    ExpiryCaller s { k with phase := k.evaluated, began := began } := by
  unfold Caller.evaluated
  cases k.op <;> exact .blank rfl rfl

theorem Silent.expiryCaller (h : ExpiryInv s) (hcaller : s.callers c = some k) {phase}
    (hsilent : Silent settings s k phase) : ExpiryCaller s { k with phase := phase } := by
  have hk : ExpiryCaller s k := h.callers c k hcaller
  have hread : ∀ row, s.launches k.launchId = some row →
      SoundRow s row ∧ ∃ r, s.launches k.launchId = some r ∧ SameLaunch row r :=
    fun row hrow => ⟨h.rows _ row hrow, row, hrow, .refl row⟩
  cases hsilent with
  | load hphase hop hrow => exact .carrying rfl rfl (hread _ hrow)
  | authorize hphase hrow hop => exact .blank rfl rfl
  | time hphase => exact .carrying rfl rfl (hk.carries _ (by rw [hphase]; rfl))
  | toCreate hphase hnone hterminal => exact .carrying rfl rfl (hk.carries _ (by rw [hphase]; rfl))
  | @loadLink row sessionId workSession hphase hop hrow hsession =>
    exact
      { carries := fun row' hrow' => by
          cases hrow'
          exact hread row hrow
        closes := fun _ _ _ h => by cases h
        checking := fun _ _ _ h => by cases h
        linking := fun row' sessionId' hphase' hop' => by
          rw [hop] at hop'
          cases hop'
          exact ⟨workSession, hsession⟩ }
  | @decide row now hphase =>
    have hcarries := hk.carries row (by rw [hphase]; rfl)
    exact
      { carries := fun row' hrow' => by
          cases hrow'
          exact hcarries
        closes := fun row' now' openSession hdecided => by
          injection hdecided with hrow' hnow hverdict
          subst hrow'
          exact closes_evaluate hverdict hcarries.1
        checking := fun _ _ _ h => by cases h
        linking := fun _ _ h => by cases h }
  | @keep row now hphase =>
    have hcarries := hk.carries row (by rw [hphase]; rfl)
    have hkept : row = row.prolonged row.expiresAt := rfl
    rw [hkept]
    exact .kept hcarries (Nat.le_refl _) hcarries.1.bounded
  | @extend row now expiresAt hphase hop =>
    have hcarries := hk.carries row (by rw [hphase]; rfl)
    obtain ⟨-, hdue, -, hlater, hbound⟩ := (h.status.callers c k hcaller).decided row now _ hphase
    exact .kept hcarries (Nat.le_trans hdue hlater) hbound
  | reread hphase hop hrow =>
    exact .checked rfl (hread _ hrow) (Nat.le_refl _) (h.rows _ _ hrow).bounded

theorem ExpiryInv.acts (h : ExpiryInv s) (hcaller : s.callers c = some k)
    (hmoves : Moves settings s c k t) :
    ∃ k', t.callers = Function.update s.callers c (some k') ∧ ExpiryCaller t k' := by
  cases hmoves with
  | silent hsilent =>
    have hk := hsilent.expiryCaller h hcaller
    refine ⟨_, rfl, fun row hrow => ?_, hk.closes, hk.checking, hk.linking⟩
    obtain ⟨hsound, hr⟩ := hk.carries row hrow
    exact ⟨hsound.grow (sessionsGrow_same rfl), hr⟩
  | @locks row phase hrow hfree hlocks =>
    have hread : SoundRow (State.setPhase
        { s with locks := Function.update s.locks k.launchId (some c) } c k phase) row :=
      (h.rows _ row hrow).grow (sessionsGrow_same rfl)
    refine ⟨_, rfl, ?_⟩
    cases hlocks with
    | first | again => exact .carrying rfl rfl ⟨hread, row, hrow, .refl row⟩
  | answers hanswers =>
    rw [finish_eq]
    exact ⟨_, rfl, .blank rfl rfl⟩
  | prolongs | expires =>
    rw [nextTransaction_eq]
    exact ⟨_, rfl, .evaluated⟩
  | assigns hassigns hcurrent hfree =>
    rw [finish_eq]
    exact ⟨_, rfl, .blank rfl rfl⟩

theorem expiryInv_step (h : ExpiryInv s) (hguard : Timely s a)
    (hstep : step settings s a = some t) : ExpiryInv t where
  status := statusInv_step h.status hguard.expiryFresh hstep
  rows := by
    intro id r' hr'
    have hsessions : SessionsGrow s t := sessions_step hstep
    rcases row_origin hstep hr' with ⟨r, hr, -⟩ | ⟨-, hcreated⟩
    · obtain ⟨r'', hr'', -, hsound⟩ := expiry_row_step h hguard hstep hr
      rw [hr'] at hr''
      cases hr''
      exact hsound.grow hsessions
    · refine ⟨hguard.created hcreated, fun _ => ?_, fun sessionId hid => ?_⟩
      · cases hcreated <;> rfl
      · cases hcreated <;> cases hid
  callers := by
    intro c k' hk'
    rcases callers_after hstep hk' with hsame | hstart | ⟨result, hdone⟩ | ⟨k, rfl, hcaller, hmoves⟩
    · refine (h.callers c k' hsame).mono (sessions_step hstep) fun id row r hr hsame => ?_
      obtain ⟨r', hr', hrow⟩ := row_step hstep hr
      exact ⟨r', hr', hsame.step hrow⟩
    · exact .blank (by rw [hstart]; rfl) (by rw [hstart]; rfl)
    · exact .blank (by rw [hdone]; rfl) (by rw [hdone]; rfl)
    · obtain ⟨k'', hcallers, hinv⟩ := h.acts hcaller hmoves
      rw [hcallers, update_self] at hk'
      cases hk'
      exact hinv

theorem Older.terminal (h : Older row r) (hterminal : row.status.isTerminal = true) :
    r.status.isTerminal = true := by
  rcases h with ⟨hstatus, -⟩ | hrank
  · rwa [← hstatus]
  · generalize row.status = a at hterminal hrank
    generalize r.status = b at hrank
    -- nothing ranks above a terminal status
    cases a <;> cases hterminal <;> cases b <;> exact absurd hrank (by decide)

theorem ExpiryInv.deadline (h : ExpiryInv s) (hguard : Timely s (.advance c))
    (hstep : step settings s (.advance c) = some t) (hcaller : s.callers c = some k)
    (hphase : k.phase = .decided row now verdict) (hr : s.launches k.launchId = some r)
    (hlate : r.hardDeadline ≤ now) :
    ∃ r', t.launches k.launchId = some r' ∧ r'.status.isTerminal = true := by
  obtain ⟨hrow, hsame, holder, hof, -⟩ := h.decided hcaller hphase hr
  rw [← hsame.hardDeadline] at hlate
  cases verdict with
  | keep =>
    have hterminal : row.status.isTerminal = true := by
      rcases hof with hterminal | hearly
      · exact hterminal
      · exact absurd (Nat.lt_of_lt_of_le hearly hrow.bounded) (Nat.not_lt.mpr hlate)
    obtain ⟨r', hr', hadvances⟩ := advances_step h.status hguard.expiryFresh hstep hr
    refine ⟨r', hr', ?_⟩
    rcases hadvances with ⟨hstatus, -⟩ | ⟨hlive, -⟩
    · rw [hstatus]
      exact holder.terminal hterminal
    · rw [holder.terminal hterminal] at hlive
      cases hlive
  | prolong expiresAt => exact absurd hof.2.2.1 (Nat.not_lt.mpr hlate)
  | expire openSession =>
    obtain ⟨hr', -, -⟩ := expire_tables hstep hcaller hphase hr
    refine ⟨_, hr', ?_⟩
    rw [(flush_expired_status hof.1 r now k.began).1]
    rfl

/-- **The life of a launch**: in every timely run, `expires_at` stays within the hard deadline and
moves forward only, a prolongation writes nothing else but `updated_at`, an expiry takes the linked
session and the claims along, and an evaluation at the hard deadline leaves the launch terminal. -/
theorem expiry_bounds {as : List Act} {a : Act}
    (h : Run (step settings) Timely State.initial as s) (hguard : Timely s a)
    (hstep : step settings s a = some t) : (∀ id r', t.launches id = some r' →
      r'.expiresAt ≤ r'.createdAt + seconds launchMaxTtlSeconds) ∧
    (∀ id r, s.launches id = some r → ∃ r', t.launches id = some r' ∧ ExpiryBounds s t r r') ∧
    (∀ c k row now verdict r, a = .advance c → s.callers c = some k →
      k.phase = .decided row now verdict → s.launches k.launchId = some r →
      r.createdAt + seconds launchMaxTtlSeconds ≤ now →
      ∃ r', t.launches k.launchId = some r' ∧ r'.status.isTerminal = true) := by
  have hs : ExpiryInv s :=
    h.invariant (fun hs hguard hstep => expiryInv_step hs hguard hstep) expiryInv_initial
  refine ⟨?_, ?_, ?_⟩
  · intro id r' hr'
    exact ((expiryInv_step hs hguard hstep).rows id r' hr').bounded
  · intro id r hr
    obtain ⟨r', hr', hbounds, -⟩ := expiry_row_step hs hguard hstep hr
    exact ⟨r', hr', hbounds⟩
  · rintro c k row now verdict r rfl hcaller hphase hr hlate
    exact hs.deadline hguard hstep hcaller hphase hr hlate

/-- The overdue launch of the retry is prolonged, within its deadline. -/
theorem expiry_bounds_prolonged :
    ∃ s t r r', Run (step sampleSettings) Timely State.initial overdueRun s ∧
      step sampleSettings s (.advance 2) = some t ∧
      s.launches sampleLaunchId = some r ∧ t.launches sampleLaunchId = some r' ∧
      r.expiresAt < r'.expiresAt ∧ r'.expiresAt ≤ r'.createdAt + seconds launchMaxTtlSeconds := by
  obtain ⟨s, t, r, r', hs, hguard, ht, hr, hr', hlonger⟩ :
      ∃ s t r r', Run (step sampleSettings) Timely State.initial overdueRun s ∧
        Timely s (.advance 2) ∧ step sampleSettings s (.advance 2) = some t ∧
        s.launches sampleLaunchId = some r ∧ t.launches sampleLaunchId = some r' ∧
        r.expiresAt < r'.expiresAt :=
    ⟨_, _, _, _, .cons (by decide) rfl (Run.of_execWithin rfl), rfl, rfl, rfl, rfl, by decide⟩
  obtain ⟨hbound, -, -⟩ := expiry_bounds hs hguard ht
  exact ⟨s, t, r, r', hs, ht, hr, hr', hlonger, hbound _ _ hr'⟩

/-- Its prolongation sets `updated_at` too. -/
theorem prolongation_updates :
    ∃ s t r r', Run (step sampleSettings) Timely State.initial overdueRun s ∧
      step sampleSettings s (.advance 2) = some t ∧
      s.launches sampleLaunchId = some r ∧ t.launches sampleLaunchId = some r' ∧
      r'.status = r.status ∧ r.expiresAt < r'.expiresAt ∧ r.updatedAt < r'.updatedAt :=
  ⟨_, _, _, _, .cons (by decide) rfl (Run.of_execWithin rfl), rfl, rfl, rfl, rfl, by decide,
    by decide⟩

end StudioOS.Launches
