import StudioOS.Launch.Locking

/-!
# Launch — StateMachine

Which changes of status commit. A caller that holds the row lock stands on the row it read; another
may be late, and the only late write that sets a status is the expiry of `get_launch`,
`list_launches`, `pull_pending` and `expire_overdue_launches`.
-/

namespace StudioOS.Launches

open Authz Runs

variable {settings : Settings} {s t : State} {c : CallerId} {k : Caller}

variable {row r assigned : Launch} {locked : Bool}

/-- How far a status is on its way. -/
def TaskLaunchStatus.rank : TaskLaunchStatus → Nat
  | .requested => 0
  | .accepted => 1
  | .preparing => 2
  | .running => 3
  | .succeeded | .failed | .cancelled | .rejected | .expired => 4

variable {a : TaskLaunchStatus} {actor : TaskLaunchActor} {now : Timestamp}
  {openSession : Option Uuid} {launch : Launch}

theorem allowed_rank {b}
    (h : allowedTransitions a b = some actor) : a.isTerminal = false ∧ a.rank < b.rank := by
  cases a <;> cases b <;> first | exact ⟨rfl, by decide⟩ | cases h

theorem allowed_expired (h : a.isTerminal = false) :
    allowedTransitions a .expired = some .server := by
  cases a <;> first | rfl | cases h

/-- A row takes one transition of the contract, or keeps its status; the
version counts the transitions. -/
def Advances (r r' : Launch) : Prop :=
  (r'.status = r.status ∧ (r.status.isTerminal = true ∨ r'.version = r.version)) ∨
    (r.status.isTerminal = false ∧ r'.version = r.version + 1 ∧
      ∃ actor, allowedTransitions r.status r'.status = some actor)

/-- The row was read at this status and version, or the status has moved
on since. -/
def Older (row r : Launch) : Prop :=
  (row.status = r.status ∧ (row.status.isTerminal = true ∨ row.version = r.version)) ∨
    row.status.rank < r.status.rank

theorem Older.refl (r) : Older r r := .inl ⟨rfl, .inr rfl⟩

theorem Older.advances {r'} (h : Older row r) (hr : Advances r r') : Older row r' := by
  rcases h with ⟨hstatus, hversion⟩ | hrank
  · rcases hr with ⟨hsame, hkept⟩ | ⟨-, -, actor, hallowed⟩
    · refine .inl ⟨hstatus.trans hsame.symm, ?_⟩
      rcases hversion with hterminal | hversion
      · exact .inl hterminal
      · rcases hkept with hterminal | hkept
        · exact .inl (hstatus ▸ hterminal)
        · exact .inr (hversion.trans hkept.symm)
    · right
      rw [hstatus]
      exact (allowed_rank hallowed).2
  · right
    rcases hr with ⟨hsame, -⟩ | ⟨-, -, actor, hallowed⟩
    · rwa [hsame]
    · exact Nat.lt_trans hrank (allowed_rank hallowed).2

theorem Older.version_eq (h : Older row r)
    (hlive : row.status.isTerminal = false) (hstatus : r.status = row.status) :
    row.version = r.version := by
  rcases h with ⟨-, hterminal | hversion⟩ | hrank
  · rw [hlive] at hterminal
    cases hterminal
  · exact hversion
  · rw [hstatus] at hrank
    exact absurd hrank (Nat.lt_irrefl _)

/-- An expiry by a caller without the row lock finds the status it read,
or a launch that is expired already. -/
def expiryFresh (s : State) : Act → Bool
  | .advance c =>
    match s.callers c with
    | none => true
    | some k =>
      match k.phase with
      | .decided row _ (.expire _) =>
        k.holds || (s.launches k.launchId).all fun r =>
          r.status = row.status ∨ r.status = .expired
      | _ => true
  | _ => true

def ExpiryFresh (s : State) (a : Act) : Prop := expiryFresh s a = true

instance (s : State) (a : Act) : Decidable (ExpiryFresh s a) :=
  inferInstanceAs (Decidable (_ = true))

theorem expiryFresh_spec (h : ExpiryFresh s (.advance c)) (hcaller : s.callers c = some k)
    (hphase : k.phase = .decided row now (.expire openSession))
    (hr : s.launches k.launchId = some r) :
    k.holds = true ∨ r.status = row.status ∨ r.status = .expired := by
  simpa [ExpiryFresh, expiryFresh, hcaller, hphase, hr] using h

/-- What a caller knows of its launch. -/
structure CallerInv (s : State) (k : Caller) : Prop where
  carries : ∀ row, k.phase.row = some row → ∃ r, s.launches k.launchId = some r ∧ Older row r
  decided : ∀ row now verdict, k.phase = .decided row now verdict → verdict.Of row now
  checking : ∀ locked row assigned, k.phase = .checking locked row assigned →
    assigned.status = row.status ∧ assigned.version = row.version ∧
      (locked = false → row.status.isTerminal = true)
  committed : k.phase = .committed → (∃ principal retry, k.op = .retry principal retry) ∨
    ∃ r, s.launches k.launchId = some r ∧ r.status.isTerminal = true

/-- **The status invariant.** -/
structure StatusInv (s : State) : Prop where
  holders : HolderInv s
  callers : ∀ c k, s.callers c = some k → CallerInv s k

theorem statusInv_initial : StatusInv State.initial where
  holders := holderInv_initial
  callers := by
    intro c k hcaller
    cases hcaller

theorem checkReport_ok {sessions report} (h : checkReport sessions launch report = .ok ()) :
    allowedTransitions launch.status report.status = some .machine ∧
      reportedSessionOk sessions launch report.sessionId = true := by
  unfold checkReport at h
  split at h
  · cases h
  split at h
  · cases h
  rename_i actor hallowed
  split at h
  · cases h
  rename_i hactor
  split at h
  · cases h
  · rename_i hsession
    rw [not_not] at hactor
    exact ⟨hactor ▸ hallowed, by simpa using hsession⟩

theorem checkCancel_ok {cancel} (h : checkCancel launch cancel = .ok ()) :
    allowedTransitions launch.status .cancelled = some .requester := by
  unfold checkCancel at h
  split at h
  · cases h
  split at h
  · cases h
  rename_i actor hallowed
  split at h
  · cases h
  · rename_i hactor
    rw [not_not] at hactor
    exact hactor ▸ hallowed

@[simp] theorem flush_prolonged_status (row r : Launch) (expiresAt began) :
    (row.flush (row.prolonged expiresAt) r began).status = r.status ∧
      (row.flush (row.prolonged expiresAt) r began).version = r.version :=
  ⟨flushed_self _ _, flushed_self _ _⟩

theorem flush_linked_status (row r : Launch) (sessionId) (began) :
    (row.flush (row.linked sessionId) r began).status = r.status ∧
      (row.flush (row.linked sessionId) r began).version = r.version :=
  ⟨flushed_self _ _, flushed_self _ _⟩

theorem flush_expired_status (hlive : row.status.isTerminal = false) (r)
    (now began) : (row.flush (row.expired now) r began).status = .expired ∧
      (row.flush (row.expired now) r began).version = row.version + 1 := by
  refine ⟨flushed_of_ne ?_ _, flushed_of_ne (Nat.succ_ne_self _) _⟩
  intro hstatus
  rw [← hstatus] at hlive
  cases hlive

theorem advances_expire (h : StatusInv s) (hguard : ExpiryFresh s (.advance c))
    (hcaller : s.callers c = some k) (hphase : k.phase = .decided row now (.expire openSession))
    (hr : s.launches k.launchId = some r) : Advances r (row.flush (row.expired now) r k.began) := by
  have hinv := h.callers c k hcaller
  have hlive : row.status.isTerminal = false := (hinv.decided row now _ hphase).1
  have hrow : k.phase.row = some row := by
    rw [hphase]
    rfl
  obtain ⟨hstatus', hversion'⟩ := flush_expired_status hlive r now k.began
  have hsame : r.status = row.status ∨ r.status = .expired := by
    rcases expiryFresh_spec hguard hcaller hphase hr with hholds | hor
    · exact .inl (congrArg Launch.status (h.holders.current hcaller hholds hrow hr)).symm
    · exact hor
  rcases hsame with hsame | hexpired
  · right
    obtain ⟨r₀, hr₀, holder⟩ := hinv.carries row hrow
    rw [hr] at hr₀
    cases hr₀
    refine ⟨hsame ▸ hlive, ?_, .server, ?_⟩
    · rw [hversion', holder.version_eq hlive hsame]
    · rw [hstatus', hsame]
      exact allowed_expired hlive
  · left
    refine ⟨hstatus'.trans hexpired.symm, .inl ?_⟩
    rw [hexpired]
    rfl

/-- A report or a cancellation that passes its checks holds the lock: the
row it read after an expiry is terminal. -/
theorem StatusInv.checked_current (h : StatusInv s) (hcaller : s.callers c = some k)
    (hphase : k.phase = .checking locked row assigned)
    (hop : k.op.locks = true) (hr : s.launches k.launchId = some r)
    (hlive : assigned.status.isTerminal = false) : row = r := by
  obtain ⟨hstatus, -, hunlocked⟩ := (h.callers c k hcaller).checking locked row assigned hphase
  have hlocked : locked = true := by
    by_contra hnot
    have hterminal := hunlocked (Bool.eq_false_iff.mpr hnot)
    rw [← hstatus, hlive] at hterminal
    cases hterminal
  have hholds : k.holds = true := holds_iff.mpr ⟨hop, by rw [hphase]; exact hlocked⟩
  exact h.holders.current hcaller hholds (by rw [hphase]; rfl) hr

theorem advances_checked (h : StatusInv s) (hcaller : s.callers c = some k) {new}
    (hphase : k.phase = .checking locked row assigned) (hop : k.op.locks = true)
    (hr : s.launches k.launchId = some r)
    (hallowed : allowedTransitions assigned.status new.status = some actor)
    (hversion : new.version = assigned.version + 1) : Advances r (row.flush new r k.began) := by
  obtain ⟨hstatus, hversion₀, -⟩ := (h.callers c k hcaller).checking locked row assigned hphase
  have hlive := (allowed_rank hallowed).1
  have hrow : row = r := h.checked_current hcaller hphase hop hr hlive
  subst hrow
  right
  refine ⟨hstatus ▸ hlive, ?_, actor, ?_⟩
  · change flushed row.version new.version row.version = row.version + 1
    rw [flushed_fresh, hversion, hversion₀]
  · change allowedTransitions row.status (flushed row.status new.status row.status) = some actor
    rw [flushed_fresh, ← hstatus]
    exact hallowed

/-- **Each step of a row is a transition of the contract.** -/
theorem advances_step (h : StatusInv s) {a} (hguard : ExpiryFresh s a) {id}
    (hstep : step settings s a = some t) (hr : s.launches id = some r) :
    ∃ r', t.launches id = some r' ∧ Advances r r' := by
  obtain ⟨r', hr', hrow⟩ := row_step hstep hr
  refine ⟨r', hr', ?_⟩
  cases hrow with
  | same => exact .inl ⟨rfl, .inr rfl⟩
  | @written c k row assigned hact hcaller hid hwrites hfree =>
    subst hid
    cases hwrites with
    | prolong hphase hop =>
      obtain ⟨hstatus, hversion⟩ := flush_prolonged_status row r _ k.began
      exact .inl ⟨hstatus, .inr hversion⟩
    | expire hphase => exact advances_expire h (hact ▸ hguard) hcaller hphase hr
    | assign hassigns =>
      cases hassigns with
      | report hop hphase hok =>
        exact advances_checked h hcaller hphase (by rw [hop]; rfl) hr (checkReport_ok hok).1 rfl
      | cancel hop hphase hok =>
        exact advances_checked h hcaller hphase (by rw [hop]; rfl) hr (checkCancel_ok hok) rfl
      | link hop hphase =>
        obtain ⟨hstatus, hversion⟩ := flush_linked_status row r _ k.began
        exact .inl ⟨hstatus, .inr hversion⟩

/-! ## The invariant along a run -/

theorem CallerInv.mono (h : CallerInv s k)
    (hrows : ∀ id r, s.launches id = some r → ∃ r', t.launches id = some r' ∧ Advances r r') :
    CallerInv t k where
  carries := by
    intro row hrow
    obtain ⟨r, hr, holder⟩ := h.carries row hrow
    obtain ⟨r', hr', hadv⟩ := hrows _ r hr
    exact ⟨r', hr', holder.advances hadv⟩
  decided := h.decided
  checking := h.checking
  committed := by
    intro hphase
    rcases h.committed hphase with hretry | ⟨r, hr, hterminal⟩
    · exact .inl hretry
    obtain ⟨r', hr', hadv⟩ := hrows _ r hr
    refine .inr ⟨r', hr', ?_⟩
    rcases hadv with ⟨hsame, -⟩ | ⟨hlive, -⟩
    · rwa [hsame]
    · rw [hlive] at hterminal
      cases hterminal

/-- The phases without a decision. -/
def Phase.plain : Phase → Bool
  | .decided .. | .checking .. | .committed => false
  | _ => true

theorem CallerInv.plain (hplain : k.phase.plain = true) (hcarries : ∀ row, k.phase.row = some row →
      ∃ r, s.launches k.launchId = some r ∧ Older row r) : CallerInv s k where
  carries := hcarries
  decided := fun row now verdict h => by rw [h] at hplain; cases hplain
  checking := fun locked row assigned h => by rw [h] at hplain; cases hplain
  committed := fun h => by rw [h] at hplain; cases hplain

theorem CallerInv.blank (hplain : k.phase.plain = true) (hrow : k.phase.row = none) :
    CallerInv s k :=
  .plain hplain fun row h => by rw [hrow] at h; cases h

theorem CallerInv.carrying (hplain : k.phase.plain = true)
    (hrow : k.phase.row = some row) (hcarries : ∃ r, s.launches k.launchId = some r ∧ Older row r) :
    CallerInv s k :=
  .plain hplain fun row' h => by
    rw [hrow] at h
    cases h
    exact hcarries

theorem CallerInv.checked {k} (hphase : k.phase = .checking locked row assigned)
    (hcarries : ∃ r, s.launches k.launchId = some r ∧ Older row r)
    (hassigned : assigned.status = row.status ∧ assigned.version = row.version)
    (hunlocked : locked = false → row.status.isTerminal = true) : CallerInv s k where
  carries := fun row' h => by
    rw [hphase] at h
    cases h
    exact hcarries
  decided := fun row now verdict h => by rw [hphase] at h; cases h
  checking := fun locked' row' assigned' h => by
    rw [hphase] at h
    cases h
    exact ⟨hassigned.1, hassigned.2, hunlocked⟩
  committed := fun h => by rw [hphase] at h; cases h

theorem CallerInv.kept (hcarries : ∃ r, s.launches k.launchId = some r ∧ Older row r)
    (hassigned : assigned.status = row.status ∧ assigned.version = row.version) :
    CallerInv s { k with phase := k.kept row assigned } := by
  unfold Caller.kept
  cases hop : k.op with
  | view | link => exact .blank rfl rfl
  | retry principal retry => exact .carrying rfl rfl hcarries
  | report | cancel => exact .checked rfl hcarries hassigned fun h => Bool.noConfusion h

theorem Silent.callerInv {phase} (h : CallerInv s k) (hsilent : Silent settings s k phase) :
    CallerInv s { k with phase := phase } := by
  cases hsilent with
  | load hphase hop hrow => exact .carrying rfl rfl ⟨_, hrow, .refl _⟩
  | authorize hphase hrow hop => exact .blank rfl rfl
  | loadLink hphase hop hrow hsession => exact .carrying rfl rfl ⟨_, hrow, .refl _⟩
  | time hphase => exact .carrying rfl rfl (h.carries _ (by rw [hphase]; rfl))
  | @decide row now hphase =>
    exact
      { carries := fun row' hrow' => by
          cases hrow'
          exact h.carries _ (by rw [hphase]; rfl)
        decided := fun row' now' verdict hdecided => by
          cases hdecided
          exact evaluate_of settings row now _
        checking := fun _ _ _ h => by cases h
        committed := fun h => by cases h }
  | keep hphase => exact .kept (h.carries _ (by rw [hphase]; rfl)) ⟨rfl, rfl⟩
  | extend hphase hop => exact .kept (h.carries _ (by rw [hphase]; rfl)) ⟨rfl, rfl⟩
  | @reread row hphase hop hrow =>
    refine .checked rfl ⟨row, hrow, .refl row⟩ ⟨rfl, rfl⟩ fun _ => ?_
    rcases h.committed hphase with ⟨principal, retry, hretry⟩ | ⟨r, hr, hterminal⟩
    · exact absurd hretry (hop principal retry)
    · rw [hrow] at hr
      cases hr
      exact hterminal
  | toCreate hphase hnone hterminal =>
    exact .carrying rfl rfl (h.carries _ (by rw [hphase]; rfl))

theorem CallerInv.evaluated (hphase : k.evaluated = .committed →
      (∃ principal retry, k.op = .retry principal retry) ∨
        ∃ r, s.launches k.launchId = some r ∧ r.status.isTerminal = true) :
    CallerInv s { k with phase := k.evaluated, began := t.clock } where
  carries := fun row hrow => by
    unfold Caller.evaluated at hrow
    dsimp only at hrow
    split at hrow <;> cases hrow
  decided := fun row now verdict h => by
    unfold Caller.evaluated at h
    dsimp only at h
    split at h <;> cases h
  checking := fun locked row assigned h => by
    unfold Caller.evaluated at h
    dsimp only at h
    split at h <;> cases h
  committed := hphase

theorem StatusInv.acts (h : StatusInv s) (hcaller : s.callers c = some k)
    (hmoves : Moves settings s c k t) :
    ∃ k', t.callers = Function.update s.callers c (some k') ∧ CallerInv t k' := by
  have hinv := h.callers c k hcaller
  cases hmoves with
  | silent hsilent =>
    have hk := hsilent.callerInv hinv
    exact ⟨_, rfl, hk.carries, hk.decided, hk.checking, hk.committed⟩
  | locks hrow hfree hlocks =>
    refine ⟨_, rfl, ?_⟩
    cases hlocks with
    | first | again => exact .carrying rfl rfl ⟨_, hrow, .refl _⟩
  | answers hanswers =>
    rw [finish_eq]
    exact ⟨_, rfl, .blank rfl rfl⟩
  | prolongs hphase hop hcurrent hfree =>
    rw [nextTransaction_eq]
    refine ⟨_, rfl, @CallerInv.evaluated _ s k fun hcommitted => .inl ?_⟩
    cases hk : k.op with
    | view | link => rw [Caller.evaluated, hk] at hcommitted; cases hcommitted
    | report | cancel => rw [hk] at hop; cases hop
    | retry principal retry => exact ⟨principal, retry, rfl⟩
  | @expires row current now openSession hphase hcurrent hfree =>
    rw [nextTransaction_eq]
    refine ⟨_, rfl, @CallerInv.evaluated _ s k fun _ => .inr ?_⟩
    have hlive : row.status.isTerminal = false := (hinv.decided row now _ hphase).1
    refine ⟨_, Function.update_self .., ?_⟩
    rw [(flush_expired_status hlive current now k.began).1]
    rfl
  | assigns hassigns hcurrent hfree =>
    rw [finish_eq]
    exact ⟨_, rfl, .blank rfl rfl⟩

theorem statusInv_step {a} (h : StatusInv s) (hguard : ExpiryFresh s a)
    (hstep : step settings s a = some t) : StatusInv t where
  holders := holderInv_step h.holders hstep
  callers := by
    intro c k' hk'
    rcases callers_after hstep hk' with hsame | hstart | ⟨result, hdone⟩ | ⟨k, rfl, hcaller, hmoves⟩
    · exact (h.callers c k' hsame).mono fun id r hr => advances_step h hguard hstep hr
    · exact .blank (by rw [hstart]; rfl) (by rw [hstart]; rfl)
    · exact .blank (by rw [hdone]; rfl) (by rw [hdone]; rfl)
    · obtain ⟨k'', hcallers, hinv⟩ := h.acts hcaller hmoves
      rw [hcallers, Function.update_self] at hk'
      cases hk'
      exact hinv

/-- **Statuses follow the contract**: in every run whose unlocked expiries find the status they
read, a further such step leaves a terminal status alone and changes another one along an edge of
`ALLOWED_TRANSITIONS`, with the next version. -/
theorem status_changes_follow_contract {as : List Act} {a : Act} {id : Uuid} {r : Launch}
    (h : Run (step settings) ExpiryFresh State.initial as s) (hguard : ExpiryFresh s a)
    (hstep : step settings s a = some t) (hr : s.launches id = some r) :
    ∃ r', t.launches id = some r' ∧ (r.status.isTerminal = true → r'.status = r.status) ∧
      (r'.status ≠ r.status → r'.version = r.version + 1 ∧
        ∃ actor, allowedTransitions r.status r'.status = some actor) := by
  have hs : StatusInv s :=
    h.invariant (fun hs hguard hstep => statusInv_step hs hguard hstep) statusInv_initial
  obtain ⟨r', hr', hadv⟩ := advances_step hs hguard hstep hr
  refine ⟨r', hr', ?_, ?_⟩
  · intro hterminal
    rcases hadv with ⟨hsame, -⟩ | ⟨hlive, -⟩
    · exact hsame
    · rw [hlive] at hterminal
      cases hterminal
  · intro hchanged
    rcases hadv with ⟨hsame, -⟩ | ⟨-, hversion, hallowed⟩
    · exact absurd hsame hchanged
    · exact ⟨hversion, hallowed⟩

def sampleLaunchId : Uuid := ⟨"10000000-0000-4000-8000-000000000001"⟩

def sampleProjectId : Uuid := ⟨"20000000-0000-4000-8000-000000000001"⟩

def sampleTaskId : Uuid := ⟨"30000000-0000-4000-8000-000000000001"⟩

def sampleMachineId : Uuid := ⟨"40000000-0000-4000-8000-000000000001"⟩

def sampleUserId : Uuid := ⟨"50000000-0000-4000-8000-000000000001"⟩

def sampleSettings : Settings :=
  { launchActivityGraceSeconds := 900, at_least := by decide, at_most := by decide }

/-- The target machine; its owner is the requester. -/
def samplePrincipal : Principal :=
  { machine := { id := sampleMachineId, ownerUserId := sampleUserId }
    role := .developer
    projectScope := .projects [sampleProjectId] }

def sampleTtl : Ttl := { seconds := 60, at_least := by decide, at_most := by decide }

def sampleCreate : TaskLaunchCreate :=
  { taskId := sampleTaskId, machineId := sampleMachineId, harnessId := "codex"
    agentStableKey := none, profileKey := none, expiresIn := sampleTtl }

def sampleReport (expectedVersion : Int) (status : TaskLaunchStatus) : TaskLaunchMachineReport :=
  { expectedVersion := expectedVersion, status := status, reasonCode := .notOptedIn
    sessionId := none, outputExcerpt := none }

/-- The machine rejects a launch in time; a read of it comes in between,
after it was due. -/
def lateExpiryRun : List Act :=
  [.create sampleLaunchId sampleProjectId sampleUserId sampleCreate 0,
    .call 0 sampleLaunchId (.report samplePrincipal (sampleReport 1 .rejected)),
    .advance 0, .advance 0, .advance 0, .advance 0, .advance 0, .tick (seconds 60),
    .call 1 sampleLaunchId .view, .advance 1, .advance 1, .advance 1]

/-- The report commits over the row it locked. -/
theorem status_changes_follow_contract_rejected :
    ∃ s t r r', Run (step sampleSettings) ExpiryFresh State.initial lateExpiryRun s ∧
      step sampleSettings s (.advance 0) = some t ∧
      s.launches sampleLaunchId = some r ∧ t.launches sampleLaunchId = some r' ∧
      r.status = .requested ∧ r'.status = .rejected ∧ r'.version = r.version + 1 := by
  obtain ⟨s, hrun, t, ht, r, hr, r', hr', hrequested, hrejected⟩ :
      ∃ s, execWithin (step sampleSettings) ExpiryFresh State.initial lateExpiryRun = some s ∧
      ∃ t, step sampleSettings s (.advance 0) = some t ∧
      ∃ r, s.launches sampleLaunchId = some r ∧ ∃ r', t.launches sampleLaunchId = some r' ∧
        r.status = .requested ∧ r'.status = .rejected :=
    ⟨_, rfl, _, rfl, _, rfl, _, rfl, rfl, rfl⟩
  have hs := Run.of_execWithin hrun
  have hguard : ExpiryFresh s (.advance 0) := by
    cases hrun
    rfl
  obtain ⟨r'', hr'', -, hchanged⟩ := status_changes_follow_contract hs hguard ht hr
  rw [hr'] at hr''
  cases hr''
  exact ⟨s, t, r, r', hs, ht, hr, hr', hrequested, hrejected,
    (hchanged (by rw [hrejected, hrequested]; exact nofun)).1⟩

/-- The read had found the launch overdue, and waits for the lock: once
the report has committed, it writes its expiry over the rejection. -/
theorem terminal_overwritten :
    ∃ s t r r', Run (step sampleSettings) Free State.initial (lateExpiryRun ++ [.advance 0]) s ∧
      step sampleSettings s (.advance 1) = some t ∧
      s.launches sampleLaunchId = some r ∧ t.launches sampleLaunchId = some r' ∧
      r.status = .rejected ∧ r.status.isTerminal = true ∧ r'.status = .expired ∧
      allowedTransitions r.status r'.status = none ∧ r'.version = r.version :=
  ⟨_, _, _, _, Run.of_execWithin rfl, rfl, rfl, rfl, rfl, rfl, rfl, rfl, rfl⟩

end StudioOS.Launches
