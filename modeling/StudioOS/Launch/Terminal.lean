import StudioOS.Launch.StateMachine

/-!
# Launch — Terminal

A launch that has ended stays ended, in every run: the late expiry of
`StateMachine` may replace one terminal status by another, and no write leads
back (`ends_step`).
-/

namespace StudioOS.Launches

open Authz Runs

variable {settings : Settings} {s t : State} {c : CallerId} {k : Caller}

variable {row assigned : Launch}

/-- No row is lost, and none that has ended lives again. -/
def Ends (launches launches' : Uuid → Option Launch) : Prop :=
  ∀ id r, launches id = some r → ∃ r', launches' id = some r' ∧ r'.projectId = r.projectId ∧
    (r.status.isTerminal = true → r'.status.isTerminal = true)

theorem Ends.refl (launches) : Ends launches launches :=
  fun _ r hr => ⟨r, hr, rfl, fun hterminal => hterminal⟩

/-- What a caller that may still write knows of its launch. -/
structure EndInv (s : State) (k : Caller) : Prop where
  decided : ∀ row now openSession, k.phase = .decided row now (.expire openSession) →
    row.status.isTerminal = false
  checking : ∀ locked row assigned, k.phase = .checking locked row assigned →
    assigned.status = row.status ∧ (locked = false → row.status.isTerminal = true)
  committed : k.phase = .committed → (∃ principal retry, k.op = .retry principal retry) ∨
    ∃ r, s.launches k.launchId = some r ∧ r.status.isTerminal = true

structure TerminalInv (s : State) : Prop where
  holders : HolderInv s
  callers : ∀ c k, s.callers c = some k → EndInv s k

theorem terminalInv_initial : TerminalInv State.initial where
  holders := holderInv_initial
  callers := by
    intro c k hcaller
    cases hcaller

theorem TerminalInv.checked_live (h : TerminalInv s) (hcaller : s.callers c = some k) {locked r}
    (hphase : k.phase = .checking locked row assigned) (hop : k.op.locks = true)
    (hr : s.launches k.launchId = some r)
    (hlive : assigned.status.isTerminal = false) : r.status.isTerminal = false := by
  obtain ⟨hstatus, hunlocked⟩ := (h.callers c k hcaller).checking locked row assigned hphase
  have hlocked : locked = true := by
    by_contra hnot
    have hterminal := hunlocked (Bool.eq_false_iff.mpr hnot)
    rw [← hstatus, hlive] at hterminal
    cases hterminal
  have hholds : k.holds = true := holds_iff.mpr ⟨hop, by rw [hphase]; exact hlocked⟩
  have hrow : row = r := h.holders.current hcaller hholds (by rw [hphase]; rfl) hr
  rw [← hrow, ← hstatus]
  exact hlive

/-- **No write leads out of a terminal status.** -/
theorem ends_step (h : TerminalInv s) {a} (hstep : step settings s a = some t) :
    Ends s.launches t.launches := by
  intro id r hr
  obtain ⟨r', hr', hrow⟩ := row_step hstep hr
  refine ⟨r', hr', hrow.fixed.1, fun hterminal => ?_⟩
  cases hrow with
  | same => exact hterminal
  | @written c k row assigned hact hcaller hid hwrites hfree =>
    subst hid
    cases hwrites with
    | prolong hphase hop =>
      rw [(flush_prolonged_status row r _ k.began).1]
      exact hterminal
    | expire hphase =>
      have hlive := (h.callers c k hcaller).decided row _ _ hphase
      rw [(flush_expired_status hlive r _ k.began).1]
      rfl
    | assign hassigns =>
      cases hassigns with
      | report hop hphase hok =>
        have hlive := h.checked_live hcaller hphase (by rw [hop]; rfl) hr
          (allowed_rank (checkReport_ok hok).1).1
        rw [hlive] at hterminal
        cases hterminal
      | cancel hop hphase hok =>
        have hlive := h.checked_live hcaller hphase (by rw [hop]; rfl) hr
          (allowed_rank (checkCancel_ok hok)).1
        rw [hlive] at hterminal
        cases hterminal
      | link hop hphase =>
        rw [(flush_linked_status row r _ k.began).1]
        exact hterminal

/-! ## The invariant -/

theorem EndInv.mono (h : EndInv s k) (hrows : Ends s.launches t.launches) : EndInv t k where
  decided := h.decided
  checking := h.checking
  committed := by
    intro hphase
    rcases h.committed hphase with hretry | ⟨r, hr, hterminal⟩
    · exact .inl hretry
    · obtain ⟨r', hr', -, hends⟩ := hrows _ r hr
      exact .inr ⟨r', hr', hends hterminal⟩

theorem EndInv.plain (hplain : k.phase.plain = true) : EndInv s k where
  decided := fun row now openSession h => by rw [h] at hplain; cases hplain
  checking := fun locked row assigned h => by rw [h] at hplain; cases hplain
  committed := fun h => by rw [h] at hplain; cases hplain

theorem EndInv.checked {k locked} (hphase : k.phase = .checking locked row assigned)
    (hassigned : assigned.status = row.status)
    (hunlocked : locked = false → row.status.isTerminal = true) : EndInv s k where
  decided := fun row' now openSession h => by rw [hphase] at h; cases h
  checking := fun locked' row' assigned' h => by
    rw [hphase] at h
    cases h
    exact ⟨hassigned, hunlocked⟩
  committed := fun h => by rw [hphase] at h; cases h

theorem EndInv.kept (hassigned : assigned.status = row.status) :
    EndInv s { k with phase := k.kept row assigned } := by
  unfold Caller.kept
  cases k.op with
  | view | link | retry => exact .plain rfl
  | report | cancel => exact .checked rfl hassigned fun h => Bool.noConfusion h

theorem Silent.endInv {phase} (h : EndInv s k) (hsilent : Silent settings s k phase) :
    EndInv s { k with phase := phase } := by
  cases hsilent with
  | load | authorize | loadLink | time => exact .plain rfl
  | @decide row now hphase =>
    exact
      { decided := fun row' now' openSession hdecided => by
          obtain ⟨rfl, rfl, hverdict⟩ : row = row' ∧ now = now' ∧
              evaluate settings row now (linkedOpenSession s.sessions row) =
                .expire openSession := by
            simpa using hdecided
          have hof := evaluate_of settings row now (linkedOpenSession s.sessions row)
          rw [hverdict] at hof
          exact hof.1
        checking := fun _ _ _ h => by cases h
        committed := fun h => by cases h }
  | keep | extend => exact .kept rfl
  | @reread row hphase hop hrow =>
    refine .checked rfl rfl fun _ => ?_
    rcases h.committed hphase with ⟨principal, retry, hretry⟩ | ⟨r, hr, hterminal⟩
    · exact absurd hretry (hop principal retry)
    · rw [hrow] at hr
      cases hr
      exact hterminal
  | toCreate hphase hnone hterminal => exact .plain rfl

theorem EndInv.evaluated {began} (hphase : k.evaluated = .committed →
      (∃ principal retry, k.op = .retry principal retry) ∨
        ∃ r, s.launches k.launchId = some r ∧ r.status.isTerminal = true) :
    EndInv s { k with phase := k.evaluated, began := began } where
  decided := fun row now openSession h => by
    unfold Caller.evaluated at h
    dsimp only at h
    split at h <;> cases h
  checking := fun locked row assigned h => by
    unfold Caller.evaluated at h
    dsimp only at h
    split at h <;> cases h
  committed := hphase

theorem TerminalInv.acts (h : TerminalInv s) (hcaller : s.callers c = some k)
    (hmoves : Moves settings s c k t) :
    ∃ k', t.callers = Function.update s.callers c (some k') ∧ EndInv t k' := by
  have hinv := h.callers c k hcaller
  cases hmoves with
  | silent hsilent =>
    have hk := hsilent.endInv hinv
    exact ⟨_, rfl, hk.decided, hk.checking, hk.committed⟩
  | locks hrow hfree hlocks =>
    refine ⟨_, rfl, ?_⟩
    cases hlocks with
    | first | again => exact .plain rfl
  | answers hanswers =>
    rw [finish_eq]
    exact ⟨_, rfl, .plain rfl⟩
  | prolongs hphase hop hcurrent hfree =>
    rw [nextTransaction_eq]
    refine ⟨_, rfl, EndInv.evaluated fun hcommitted => .inl ?_⟩
    cases hk : k.op with
    | view | link => rw [Caller.evaluated, hk] at hcommitted; cases hcommitted
    | report | cancel => rw [hk] at hop; cases hop
    | retry principal retry => exact ⟨principal, retry, rfl⟩
  | @expires row current now openSession hphase hcurrent hfree =>
    rw [nextTransaction_eq]
    refine ⟨_, rfl, EndInv.evaluated fun _ => .inr ?_⟩
    have hlive := hinv.decided row now openSession hphase
    refine ⟨_, Function.update_self .., ?_⟩
    rw [(flush_expired_status hlive current now k.began).1]
    rfl
  | assigns hassigns hcurrent hfree =>
    rw [finish_eq]
    exact ⟨_, rfl, .plain rfl⟩

theorem terminalInv_step {a} (h : TerminalInv s) (hstep : step settings s a = some t) :
    TerminalInv t where
  holders := holderInv_step h.holders hstep
  callers := by
    intro c k' hk'
    rcases callers_after hstep hk' with hsame | hstart | ⟨result, hdone⟩ | ⟨k, rfl, hcaller, hmoves⟩
    · exact (h.callers c k' hsame).mono (ends_step h hstep)
    · exact .plain (by rw [hstart]; rfl)
    · exact .plain (by rw [hdone]; rfl)
    · obtain ⟨k'', hcallers, hinv⟩ := h.acts hcaller hmoves
      rw [hcallers, Function.update_self] at hk'
      cases hk'
      exact hinv

theorem TerminalInv.rows (h : TerminalInv s) (hcallers : t.callers = s.callers)
    (hlocks : t.locks = s.locks)
    (hrows : ∀ id row, s.launches id = some row → t.launches id = some row) : TerminalInv t where
  holders := h.holders.rows hcallers hlocks hrows
  callers := by
    intro c k hcaller
    rw [hcallers] at hcaller
    exact (h.callers c k hcaller).mono fun id r hr =>
      ⟨r, hrows id r hr, rfl, fun hterminal => hterminal⟩

theorem TerminalInv.finish (h : TerminalInv s) (result) : TerminalInv (s.finish c k result) := by
  rw [finish_eq]
  refine ⟨h.holders.update rfl (fun c' id row hne hlock hrow =>
    ⟨locksWithout_other hne hlock, hrow⟩) fun hholds => ?_, ?_⟩
  · cases (holds_iff.mp hholds).2
  intro c' k' hcaller
  dsimp only at hcaller
  rcases update_some hcaller with ⟨rfl, rfl⟩ | ⟨hc, hcaller⟩
  · exact .plain rfl
  · have hinv := h.callers c' k' hcaller
    exact ⟨hinv.decided, hinv.checking, hinv.committed⟩

/-- **What has ended stays ended**: in every run, with expiries of rows that were read before, no
launch is lost, moved to another project or brought back to life. -/
theorem ended_for_good {as bs : List Act} (h : Run (step settings) Free State.initial as s)
    (hrun : Run (step settings) Free s bs t) {id : Uuid} {r : Launch} (hr : s.launches id = some r) :
    ∃ r', t.launches id = some r' ∧ r'.projectId = r.projectId ∧
      (r.status.isTerminal = true → r'.status.isTerminal = true) := by
  have hs : TerminalInv s :=
    h.invariant (fun hs _ hstep => terminalInv_step hs hstep) terminalInv_initial
  refine (hrun.invariant (I := fun t => TerminalInv t ∧ Ends s.launches t.launches)
    (fun ⟨ht, hends⟩ _ hstep => ⟨terminalInv_step ht hstep, ?_⟩) ⟨hs, .refl _⟩).2 id r hr
  intro id r hr
  obtain ⟨r', hr', hproject, hterminal⟩ := hends id r hr
  obtain ⟨r'', hr'', hproject', hterminal'⟩ := ends_step ht hstep id r' hr'
  exact ⟨r'', hr'', hproject'.trans hproject, fun h => hterminal' (hterminal h)⟩

theorem ended_for_good_overwritten : ∃ s t r r',
    Run (step sampleSettings) Free State.initial (lateExpiryRun ++ [.advance 0]) s ∧
      Run (step sampleSettings) Free s [.advance 1] t ∧ s.launches sampleLaunchId = some r ∧
      r.status = .rejected ∧ t.launches sampleLaunchId = some r' ∧ r'.status.isTerminal = true := by
  obtain ⟨s, t, r, hs, ht, hr, hstatus⟩ : ∃ s t r,
      Run (step sampleSettings) Free State.initial (lateExpiryRun ++ [.advance 0]) s ∧
      Run (step sampleSettings) Free s [.advance 1] t ∧ s.launches sampleLaunchId = some r ∧
      r.status = .rejected :=
    ⟨_, _, _, Run.of_execWithin rfl, Run.of_execWithin rfl, rfl, rfl⟩
  obtain ⟨r', hr', -, hends⟩ := ended_for_good hs ht hr
  exact ⟨s, t, r, r', hs, ht, hr, hstatus, hr', hends (by rw [hstatus]; rfl)⟩

/-- **The row lock excludes**: in every run, a caller between its lock and the end of its
transaction carries the row as it stands, and no step but its own changes it. -/
theorem row_lock_excludes {as : List Act} (h : Run (step settings) Free State.initial as s)
    (hcaller : s.callers c = some k) (hholds : k.holds = true) :
    ∃ row, k.phase.row = some row ∧ s.launches k.launchId = some row ∧ ∀ a t,
      step settings s a = some t → a = .advance c ∨ t.launches k.launchId = some row := by
  have hinv : HolderInv s :=
    h.invariant (fun hs _ hstep => holderInv_step hs hstep) holderInv_initial
  obtain ⟨hlock, row, hrow, hlaunch⟩ := hinv c k hcaller hholds
  refine ⟨row, hrow, hlaunch, fun a t hstep => ?_⟩
  obtain ⟨row', hrow', hwritten⟩ := row_step hstep hlaunch
  cases hwritten with
  | same => exact .inr hrow'
  | written hact _ _ _ hfree =>
    rw [hlock] at hfree
    obtain hnone | hsame := hfree
    · cases hnone
    · cases hsame
      exact .inl hact

theorem row_lock_excludes_late : ∃ s k row, Run (step sampleSettings) Free State.initial
      lateExpiryRun s ∧ s.callers 0 = some k ∧ k.holds = true ∧
      s.launches k.launchId = some row ∧ row.status = .requested := by
  obtain ⟨s, k, hs, hcaller, hholds, hlaunch⟩ : ∃ s k, Run (step sampleSettings) Free State.initial
      lateExpiryRun s ∧ s.callers 0 = some k ∧ k.holds = true ∧
      (s.launches k.launchId).map Launch.status = some .requested :=
    ⟨_, _, Run.of_execWithin rfl, rfl, rfl, rfl⟩
  obtain ⟨row, -, hrow, -⟩ := row_lock_excludes hs hcaller hholds
  rw [hrow] at hlaunch
  exact ⟨s, k, row, hs, hcaller, hholds, hrow, Option.some.inj hlaunch⟩

end StudioOS.Launches
