import StudioOS.Launch.StateMachine

/-!
# Launch — Retry

The chain of attempts. A retry creates under the row lock, which it holds from
its second `refresh` on, and the unique index keeps one successor for each
launch; both make the chain linear in every run (`RetryChain`).
-/

namespace StudioOS.Launches

open Function Authz Runs

variable {settings : Settings} {s t : State} {c : CallerId} {k : Caller}

variable {a : Act} {p launchId : Uuid}

/-! ## The invariant -/

/-- A retry that is about to create holds a terminal row that has no
successor. -/
structure RetryCaller (s : State) (k : Caller) : Prop where
  isRetry : ∀ row, k.phase = .relocked row ∨ k.phase = .creating row →
    ∃ principal retry, k.op = .retry principal retry
  ready : ∀ row, k.phase = .creating row →
    row.status.isTerminal = true ∧ s.retryIndex k.launchId = none

/-- **The chain invariant**: the index is that of the table, and each
successor counts one more attempt than the row it names. -/
structure RetryInv (s : State) : Prop where
  holders : HolderInv s
  indexed : ∀ p b, s.retryIndex p = some b →
    ∃ rb, s.launches b = some rb ∧ rb.retryOfLaunchId = some p
  linked : ∀ b rb p, s.launches b = some rb → rb.retryOfLaunchId = some p →
    s.retryIndex p = some b ∧ ∃ rp, s.launches p = some rp ∧ rb.attempt = rp.attempt + 1
  callers : ∀ c k, s.callers c = some k → RetryCaller s k

theorem retryInv_initial : RetryInv State.initial where
  holders := holderInv_initial
  indexed := fun p b h => by cases h
  linked := fun b rb p h => by cases h
  callers := fun c k h => by cases h

theorem RetryInv.creating (h : RetryInv s) (hcaller : s.callers c = some k) {row}
    (hphase : k.phase = .creating row) :
    k.holds = true ∧ s.locks k.launchId = some c ∧ s.launches k.launchId = some row := by
  obtain ⟨principal, retry, hop⟩ := (h.callers c k hcaller).isRetry row (.inr hphase)
  have hholds : k.holds = true := holds_iff.mpr ⟨by rw [hop]; rfl, by rw [hphase]; rfl⟩
  obtain ⟨hlock, row', hrow, hlaunch⟩ := h.holders c k hcaller hholds
  rw [hphase] at hrow
  cases hrow
  exact ⟨hholds, hlock, hlaunch⟩

theorem index_step (h : step settings s a = some t) :
    t.retryIndex = s.retryIndex ∨ ∃ c k newId, a = .createRetry c newId ∧
      s.callers c = some k ∧ s.createRetry c k newId = some t ∧
      s.retryIndex k.launchId = none ∧ s.launches newId = none ∧
      t.retryIndex = Function.update s.retryIndex k.launchId (some newId) := by
  cases step_acts h with
  | environment hcallers hindex => exact .inl hindex
  | call hact hnew hphase hcallers hindex => exact .inl hindex
  | advance hact hcaller hmoves => exact .inl hmoves.retryIndex
  | @create c k newId hact hcaller hcreate =>
    obtain ⟨principal, retry, row, -, -, hfresh, hindex, ht⟩ := createRetry_eq hcreate
    exact .inr ⟨c, k, newId, hact, hcaller, hcreate, hindex, hfresh, congrArg State.retryIndex ht⟩
  | refuse hact hcaller hphase ht =>
    left
    rw [ht, finish_eq]

theorem index_mono {b} (h : step settings s a = some t)
    (hindex : s.retryIndex p = some b) : t.retryIndex p = some b := by
  rcases index_step h with hsame | ⟨c, k, newId, -, -, -, hnone, -, hupdate⟩
  · rwa [hsame]
  · rw [hupdate, update_of_ne]
    · exact hindex
    · rintro rfl
      rw [hnone] at hindex
      cases hindex

theorem RetryCaller.ofPhase (hrelocked : ∀ row, k.phase ≠ .relocked row)
    (hcreating : ∀ row, k.phase ≠ .creating row) : RetryCaller s k where
  isRetry := fun row h => (h.elim (hrelocked row) (hcreating row)).elim
  ready := fun row h => absurd h (hcreating row)

theorem kept_retryCaller {row assigned} :
    RetryCaller s { k with phase := k.kept row assigned } := by
  unfold Caller.kept
  cases k.op with
  | retry principal retry => exact ⟨fun _ _ => ⟨principal, retry, rfl⟩, fun _ h => by cases h⟩
  | view | link | report | cancel => exact .ofPhase (fun _ h => by cases h) fun _ h => by cases h

theorem evaluated_retryCaller {began} :
    RetryCaller s { k with phase := k.evaluated, began := began } := by
  unfold Caller.evaluated
  cases k.op <;> exact .ofPhase (fun _ h => by cases h) fun _ h => by cases h

theorem Silent.retryCaller {phase} (h : RetryCaller s k)
    (hsilent : Silent settings s k phase) : RetryCaller s { k with phase := phase } := by
  cases hsilent with
  | load hphase hop hrow => exact .ofPhase (fun _ h => by cases h) fun _ h => by cases h
  | authorize hphase hrow hop => exact .ofPhase (fun _ h => by cases h) fun _ h => by cases h
  | loadLink hphase hop hrow hs => exact .ofPhase (fun _ h => by cases h) fun _ h => by cases h
  | time | decide | reread => exact .ofPhase (fun _ h => by cases h) fun _ h => by cases h
  | keep | extend => exact kept_retryCaller
  | toCreate hphase hnone hterminal =>
    exact ⟨fun row _ => h.isRetry _ (.inl hphase), fun row hrow => by
      cases hrow
      exact ⟨hterminal, hnone⟩⟩

theorem RetryCaller.acts {k'} (h : RetryCaller s k) (hmoves : Moves settings s c k t)
    (hk' : t.callers c = some k') : RetryCaller t k' := by
  cases hmoves with
  | silent hsilent =>
    rw [setPhase_callers, update_self] at hk'
    cases hk'
    have hk := hsilent.retryCaller h
    exact ⟨hk.isRetry, hk.ready⟩
  | locks hrow hfree hlocks =>
    rw [setPhase_callers, update_self] at hk'
    cases hk'
    cases hlocks with
    | first hphase => exact .ofPhase (fun _ h => by cases h) fun _ h => by cases h
    | again hphase hop => exact ⟨fun _ _ => ⟨_, _, hop⟩, fun _ h => by cases h⟩
  | answers hanswers =>
    rw [finish_eq] at hk'
    dsimp only at hk'
    rw [update_self] at hk'
    cases hk'
    exact .ofPhase (fun _ h => by cases h) fun _ h => by cases h
  | prolongs | expires =>
    rw [nextTransaction_eq] at hk'
    dsimp only at hk'
    rw [update_self] at hk'
    cases hk'
    exact evaluated_retryCaller
  | assigns hassigns hcurrent hfree =>
    rw [finish_eq] at hk'
    dsimp only at hk'
    rw [update_self] at hk'
    cases hk'
    exact .ofPhase (fun _ h => by cases h) fun _ h => by cases h

theorem RetryInv.ready_mono (h : RetryInv s) (hstep : step settings s a = some t)
    (hcaller : s.callers c = some k) (hcaller' : t.callers c = some k) {row}
    (hphase : k.phase = .creating row) : t.retryIndex k.launchId = none := by
  have hnone := ((h.callers c k hcaller).ready row hphase).2
  rcases index_step hstep with hsame | ⟨c₀, k₀, newId, -, hcaller₀, hcreate, -, -, hupdate⟩
  · rwa [hsame]
  obtain ⟨principal, retry, row₀, hop, hphase₀, hfresh, hindex, ht⟩ := createRetry_eq hcreate
  rw [hupdate, update_of_ne]
  · exact hnone
  intro hid
  have hlock := (h.creating hcaller hphase).2.1
  have hlock₀ := (h.creating hcaller₀ hphase₀).2.1
  rw [hid, hlock₀] at hlock
  cases hlock
  -- the creator itself has returned
  rw [ht] at hcaller'
  dsimp only at hcaller'
  rw [update_self] at hcaller'
  cases hcaller'
  cases hphase

theorem RetryInv.linked_new (h : RetryInv s) (hstep : step settings s a = some t) {b rb}
    (hcreated : Created s a b rb) (hp : rb.retryOfLaunchId = some p) :
    t.retryIndex p = some b ∧ ∃ rp, s.launches p = some rp ∧ rp.status.isTerminal = true ∧
      rb.attempt = rp.attempt + 1 := by
  cases hcreated with
  | first hact hbegan => cases hp
  | @retry c k principal retry row hact hcaller hop hphase =>
    cases hp
    subst hact
    obtain ⟨k', hcaller', hcreate⟩ := Option.bind_eq_some_iff.mp hstep
    rw [hcaller] at hcaller'
    cases hcaller'
    obtain ⟨-, -, -, -, -, -, -, rfl⟩ := createRetry_eq hcreate
    exact ⟨update_self .., row, (h.creating hcaller hphase).2.2,
      ((h.callers c k hcaller).ready row hphase).1, rfl⟩

theorem retryInv_step (h : RetryInv s) (hstep : step settings s a = some t) : RetryInv t where
  holders := holderInv_step h.holders hstep
  indexed := by
    intro p b hindex
    have hold : s.retryIndex p = some b →
        ∃ rb, t.launches b = some rb ∧ rb.retryOfLaunchId = some p := by
      intro hindex
      obtain ⟨rb, hrb, hretry⟩ := h.indexed p b hindex
      obtain ⟨rb', hrb', hrow⟩ := row_step hstep hrb
      exact ⟨rb', hrb', hrow.fixed.2.2.2.1.trans hretry⟩
    rcases index_step hstep with hsame | ⟨c, k, newId, -, -, hcreate, -, -, hupdate⟩
    · exact hold (hsame ▸ hindex)
    rw [hupdate] at hindex
    rcases update_some hindex with ⟨rfl, rfl⟩ | ⟨hp, hindex⟩
    · obtain ⟨-, -, -, -, -, -, -, rfl⟩ := createRetry_eq hcreate
      exact ⟨_, update_self .., rfl⟩
    · exact hold hindex
  linked := by
    intro b rb p hrb hp
    rcases row_origin hstep hrb with ⟨r, hr, hrow⟩ | ⟨-, hcreated⟩
    · obtain ⟨-, -, hattempt, hretry, -⟩ := hrow.fixed
      rw [hretry] at hp
      obtain ⟨hindex, rp, hrp, hcount⟩ := h.linked b r p hr hp
      obtain ⟨rp', hrp', hrow'⟩ := row_step hstep hrp
      refine ⟨index_mono hstep hindex, rp', hrp', ?_⟩
      rw [hattempt, hrow'.fixed.2.2.1]
      exact hcount
    · obtain ⟨hindex, rp, hrp, -, hcount⟩ := h.linked_new hstep hcreated hp
      obtain ⟨rp', hrp', hrow'⟩ := row_step hstep hrp
      refine ⟨hindex, rp', hrp', ?_⟩
      rw [hrow'.fixed.2.2.1]
      exact hcount
  callers := by
    intro c k' hk'
    rcases callers_after hstep hk' with hsame | hstart | ⟨result, hdone⟩ | ⟨k, -, hcaller, hmoves⟩
    · have hk := h.callers c k' hsame
      exact ⟨hk.isRetry, fun row hphase =>
        ⟨(hk.ready row hphase).1, h.ready_mono hstep hsame hk' hphase⟩⟩
    · exact .ofPhase (fun _ h => by rw [hstart] at h; cases h)
        fun _ h => by rw [hstart] at h; cases h
    · exact .ofPhase (fun _ h => by rw [hdone] at h; cases h)
        fun _ h => by rw [hdone] at h; cases h
    · exact (h.callers c k hcaller).acts hmoves hk'

/-- The caller a step belongs to. -/
def Act.caller : Act → Option CallerId
  | .advance c | .createRetry c _ | .refuseRetry c _ => some c
  | _ => none

theorem retry_writes (h : HolderInv s) (hact : a.caller = some c) (hcaller : s.callers c = some k)
    {principal retry} (hop : k.op = .retry principal retry) {id r r'} (hr : s.launches id = some r)
    (hrow : RowStep s a id r r') : r' = r ∨ (id = k.launchId ∧
      ((∃ now updatedAt, r' = { r.expired now with updatedAt := updatedAt }) ∨
        ∃ expiresAt updatedAt, r' = { r with expiresAt := expiresAt, updatedAt := updatedAt })) := by
  cases hrow with
  | same => exact .inl rfl
  | @written c₀ k₀ row assigned hadvance hcaller₀ hid hwrites hfree =>
    subst hadvance
    cases hact
    rw [hcaller] at hcaller₀
    cases hcaller₀
    subst hid
    refine .inr ⟨rfl, ?_⟩
    cases hwrites with
    | @prolong now expiresAt hphase hpersist =>
      have hholds : k.holds = true := holds_iff.mpr ⟨by rw [hop]; rfl, by rw [hphase]; rfl⟩
      have hsame : row = r := h.current hcaller hholds (by rw [hphase]; rfl) hr
      subst hsame
      exact .inr ⟨expiresAt, _, row.flush_same (row.prolonged expiresAt) k.began⟩
    | @expire now openSession hphase =>
      have hholds : k.holds = true := holds_iff.mpr ⟨by rw [hop]; rfl, by rw [hphase]; rfl⟩
      have hsame : row = r := h.current hcaller hholds (by rw [hphase]; rfl) hr
      subst hsame
      exact .inl ⟨now, _, row.flush_same (row.expired now) k.began⟩
    | assign hassigns =>
      cases hassigns with
      | report hop' hphase hok => rw [hop] at hop'; cases hop'
      | cancel hop' hphase hok => rw [hop] at hop'; cases hop'
      | link hop' hphase => rw [hop] at hop'; cases hop'

/-! ## What a retry returns -/

/-- The retry of a launch that has a successor already: it is authorized,
and what it returns is that successor. -/
structure Answering (c : CallerId) (launchId b : Uuid) (principal : Principal)
    (retry : TaskLaunchRetry) (s : State) : Prop where
  inv : RetryInv s
  index : s.retryIndex launchId = some b
  authorized : ∀ r, s.launches launchId = some r →
    authorizeRequester principal r "retry" = .ok ()
  caller : ∃ k, s.callers c = some k ∧ k.launchId = launchId ∧ k.op = .retry principal retry ∧
    ∀ result, k.phase = .done result → result = .ok b

theorem RetryInv.predecessor (h : RetryInv s) {b} (hindex : s.retryIndex p = some b) :
    ∃ r, s.launches p = some r := by
  obtain ⟨rb, hrb, hretry⟩ := h.indexed p b hindex
  obtain ⟨-, rp, hrp, -⟩ := h.linked b rb p hrb hretry
  exact ⟨rp, hrp⟩

theorem authorizeRequester_congr {principal r r' action} (hproject : r'.projectId = r.projectId)
    (hrequester : r'.requestedByUserId = r.requestedByUserId) :
    authorizeRequester principal r' action = authorizeRequester principal r action := by
  simp [authorizeRequester, hproject, hrequester]

theorem Silent.not_done {principal retry} (hop : k.op = .retry principal retry) {phase}
    (h : Silent settings s k phase) (result) : phase ≠ .done result := by
  have hkept : ∀ row assigned, k.kept row assigned ≠ .done result := by
    intro row assigned hdone
    rw [Caller.kept, hop] at hdone
    cases hdone
  cases h with
  | keep | extend => exact hkept _ _
  | load | authorize | loadLink | time | decide | reread | toCreate => exact fun h => by cases h

theorem Answering.answers {b principal retry} (hplain : retry.replay = none)
    (h : Answering c launchId b principal retry s) (hid : k.launchId = launchId)
    (hop : k.op = .retry principal retry) {result}
    (hanswers : Answers s k result) : result = .ok b := by
  subst hid
  cases hanswers with
  | absent hrow =>
    obtain ⟨r, hr⟩ := h.inv.predecessor h.index
    rw [hrow] at hr
    cases hr
  | refused hphase hrow hop' he =>
    rw [hop] at hop'
    cases hop'
    rw [h.authorized _ hrow] at he
    cases he
  | existing hop' hindex =>
    rw [hop] at hop'
    cases hop'
    rw [h.index] at hindex
    cases hindex
    simp [existingRetry, hplain]
  | live hphase hindex =>
    rw [h.index] at hindex
    cases hindex
  | other hnot => exact absurd hop (hnot principal retry)

theorem Answering.moves {b principal retry} (hplain : retry.replay = none)
    (h : Answering c launchId b principal retry s) (hid : k.launchId = launchId)
    (hop : k.op = .retry principal retry) (hmoves : Moves settings s c k t) :
    ∃ k', t.callers c = some k' ∧ k'.launchId = launchId ∧ k'.op = .retry principal retry ∧
      ∀ result, k'.phase = .done result → result = .ok b := by
  have hevaluated : k.evaluated = .committed := by rw [Caller.evaluated, hop]
  cases hmoves with
  | silent hsilent =>
    exact ⟨_, update_self .., hid, hop,
      fun result hdone => absurd hdone (hsilent.not_done hop result)⟩
  | locks hrow hfree hlocks =>
    refine ⟨_, update_self .., hid, hop, fun result hdone => ?_⟩
    cases hlocks <;> cases hdone
  | answers hanswers =>
    rw [finish_eq]
    refine ⟨_, update_self .., hid, hop, fun result hdone => ?_⟩
    cases hdone
    exact h.answers hplain hid hop hanswers
  | prolongs | expires =>
    rw [nextTransaction_eq, hevaluated]
    exact ⟨_, update_self .., hid, hop, fun result hdone => by cases hdone⟩
  | assigns hassigns hcurrent hfree =>
    cases hassigns with
    | report hop' hphase hok => rw [hop] at hop'; cases hop'
    | cancel hop' hphase hok => rw [hop] at hop'; cases hop'
    | link hop' hphase => rw [hop] at hop'; cases hop'

theorem answering_step {b principal retry} (hplain : retry.replay = none)
    (h : Answering c launchId b principal retry s)
    (hstep : step settings s a = some t) : Answering c launchId b principal retry t := by
  obtain ⟨k, hcaller, hid, hop, hdone⟩ := h.caller
  refine ⟨retryInv_step h.inv hstep, index_mono hstep h.index, ?_, ?_⟩
  · intro r' hr'
    obtain ⟨r, hr⟩ := h.inv.predecessor h.index
    rcases row_origin hstep hr' with ⟨r₀, hr₀, hrow⟩ | ⟨hnone, -⟩
    · obtain ⟨hproject, hrequester, -⟩ := hrow.fixed
      rw [authorizeRequester_congr hproject hrequester]
      exact h.authorized r₀ hr₀
    · rw [hnone] at hr
      cases hr
  -- the caller itself: as before, or past its own step
  have hsame : t.callers c = s.callers c → ∃ k', t.callers c = some k' ∧
      k'.launchId = launchId ∧ k'.op = .retry principal retry ∧
      ∀ result, k'.phase = .done result → result = .ok b := by
    intro heq
    exact ⟨k, heq.trans hcaller, hid, hop, hdone⟩
  have hcreating : ∀ row, k.phase ≠ .creating row := by
    intro row hphase
    have hnone := ((h.inv.callers c k hcaller).ready row hphase).2
    rw [hid, h.index] at hnone
    cases hnone
  cases step_acts hstep with
  | environment hcallers hindex => exact hsame (by rw [hcallers])
  | @call c₀ k₀ hact hnew hphase hcallers hindex =>
    refine hsame ?_
    rw [hcallers, update_of_ne]
    rintro rfl
    rw [hcaller] at hnew
    cases hnew
  | @advance c₀ k₀ hact hcaller₀ hmoves =>
    by_cases hc : c = c₀
    · subst hc
      rw [hcaller] at hcaller₀
      cases hcaller₀
      exact h.moves hplain hid hop hmoves
    · obtain ⟨k', hcallers, -, -⟩ := hmoves.callers
      exact hsame (by rw [hcallers, update_of_ne hc])
  | @create c₀ k₀ newId hact hcaller₀ hcreate =>
    obtain ⟨principal₀, retry₀, row, -, hphase, -, -, ht⟩ := createRetry_eq hcreate
    refine hsame ?_
    rw [ht]
    refine update_of_ne ?_ _ _
    rintro rfl
    rw [hcaller] at hcaller₀
    cases hcaller₀
    exact hcreating row hphase
  | @refuse c₀ k₀ row e hact hcaller₀ hphase ht =>
    refine hsame ?_
    rw [ht, finish_eq]
    refine update_of_ne ?_ _ _
    rintro rfl
    rw [hcaller] at hcaller₀
    cases hcaller₀
    exact hcreating row hphase

/-! ## A retry returns -/

/-- The caller returns by its own steps. -/
def Returns (settings : Settings) (s : State) (c : CallerId) : Prop :=
  ∃ bs t, (∀ b ∈ bs, b = .advance c) ∧ Run (step settings) Free s bs t ∧
    ∃ k result, t.callers c = some k ∧ k.phase = .done result

theorem Returns.step (hcaller : s.callers c = some k) (h : s.advance settings c k = some t)
    (ht : Returns settings t c) : Returns settings s c := by
  obtain ⟨bs, u, hbs, hrun, hdone⟩ := ht
  refine ⟨.advance c :: bs, u, ?_, .cons trivial ?_ hrun, hdone⟩
  · intro b hb
    rcases List.mem_cons.mp hb with rfl | hb
    · rfl
    · exact hbs b hb
  · exact Option.bind_eq_some_iff.mpr ⟨k, hcaller, h⟩

variable {principal : Principal} {retry : TaskLaunchRetry} {row : Launch} {b : Uuid}

theorem returns_relocked (hcaller : s.callers c = some k) (hop : k.op = .retry principal retry)
    (hphase : k.phase = .relocked row) (hindex : s.retryIndex k.launchId = some b) :
    Returns settings s c := by
  have hstep : s.advance settings c k = some (s.finish c k (existingRetry s b retry)) := by
    simp [State.advance, hphase, State.decideRetry, hop, hindex]
  refine .step hcaller hstep ⟨[], _, List.forall_mem_nil _, .nil _, ?_⟩
  rw [finish_eq]
  exact ⟨_, _, update_self .., rfl⟩

theorem returns_committed (hcaller : s.callers c = some k) (hop : k.op = .retry principal retry)
    (hphase : k.phase = .committed) (hrow : s.launches k.launchId = some row)
    (hfree : s.locks k.launchId = none) (hindex : s.retryIndex k.launchId = some b) :
    Returns settings s c := by
  have hstep : s.advance settings c k = some (State.setPhase
      { s with locks := Function.update s.locks k.launchId (some c) } c k (.relocked row)) := by
    simp [State.advance, hphase, State.reread, hop, State.lock, hrow, hfree]
  exact .step hcaller hstep (returns_relocked (update_self ..) hop rfl hindex)

theorem locksWithout_self (hlock : s.locks k.launchId = some c) :
    s.locksWithout c k k.launchId = none := by
  rw [State.locksWithout, if_pos hlock, update_self]

theorem returns_decided (hcaller : s.callers c = some k) (hop : k.op = .retry principal retry)
    {now verdict} (hphase : k.phase = .decided row now verdict)
    (hrow : s.launches k.launchId = some row) (hlock : s.locks k.launchId = some c)
    (hindex : s.retryIndex k.launchId = some b) : Returns settings s c := by
  have hevaluated : k.evaluated = .committed := by rw [Caller.evaluated, hop]
  have hwrite : ∀ assigned, s.write c k row assigned =
      some (s.put k (row.flush assigned row k.began)) := by
    intro assigned
    simp only [State.write, hrow, hlock, or_true, if_true]
    rfl
  cases verdict with
  | keep =>
    have hstep : s.advance settings c k = some (s.setPhase c k (.relocked row)) := by
      simp [State.advance, hphase, State.settle, Caller.kept, hop]
    exact .step hcaller hstep (returns_relocked (update_self ..) hop rfl hindex)
  | prolong expiresAt =>
    have hstep : s.advance settings c k =
        some ((s.put k (row.flush (row.prolonged expiresAt) row k.began)).nextTransaction c k
          .committed) := by
      simp [State.advance, hphase, State.settle, hwrite, hevaluated, hop, Op.persistExtension]
    refine .step hcaller hstep ?_
    rw [nextTransaction_eq]
    exact returns_committed (update_self ..) hop rfl (update_self ..)
      (locksWithout_self hlock) hindex
  | expire openSession =>
    have hstep : s.advance settings c k =
        some (((s.put k (row.flush (row.expired now) row k.began)).handOff row
          openSession).nextTransaction c k .committed) := by
      simp [State.advance, hphase, State.settle, hwrite, hevaluated]
    refine .step hcaller hstep ?_
    rw [nextTransaction_eq]
    exact returns_committed (update_self ..) hop rfl (update_self ..)
      (locksWithout_self hlock) hindex

theorem returns_start (hcaller : s.callers c = some k) (hop : k.op = .retry principal retry)
    (hphase : k.phase = .start) (hrow : s.launches k.launchId = some row)
    (hauthorized : authorizeRequester principal row "retry" = .ok ())
    (hfree : s.locks k.launchId = none) (hindex : s.retryIndex k.launchId = some b) :
    Returns settings s c := by
  have hgate : s.advance settings c k = some (s.setPhase c k .authorized) := by
    simp [State.advance, hphase, State.firstRead, hrow, hop, hauthorized, State.gate]
  have hlock : (s.setPhase c k .authorized).advance settings c { k with phase := .authorized } =
      some (State.setPhase
        { s.setPhase c k .authorized with
          locks := Function.update s.locks k.launchId (some c) }
        c { k with phase := .authorized } (.loaded row)) := by
    simp [State.advance, State.lock, setPhase_launches, hrow, setPhase_locks, hfree]
  refine .step hcaller hgate (.step (update_self ..) hlock ?_)
  refine .step (update_self ..) rfl (.step (update_self ..) rfl ?_)
  exact returns_decided (update_self ..) hop rfl hrow (update_self ..) hindex

/-- What holds of retries in a state and in the steps from it. -/
structure RetryChain (settings : Settings) (s : State) : Prop where
  /-- A launch has at most one successor. -/
  linear : ∀ p a b ra rb, s.launches a = some ra → s.launches b = some rb →
    ra.retryOfLaunchId = some p → rb.retryOfLaunchId = some p → a = b
  attempts : ∀ p b rb, s.launches b = some rb → rb.retryOfLaunchId = some p →
    ∃ rp, s.launches p = some rp ∧ rb.attempt = rp.attempt + 1
  /-- A successor is created for a terminal launch, which stays as it is. -/
  afterEnd : ∀ a t p b rb, step settings s a = some t → s.launches b = none →
    t.launches b = some rb → rb.retryOfLaunchId = some p →
    ∃ rp, s.launches p = some rp ∧ rp.status.isTerminal = true ∧ t.launches p = some rp
  /-- A step of a retry expires its launch, prolongs it, or leaves it; it
  leaves every other launch. -/
  writes : ∀ a t c k principal retry id r, step settings s a = some t → a.caller = some c →
    s.callers c = some k → k.op = .retry principal retry → s.launches id = some r →
    ∃ r', t.launches id = some r' ∧ (r' = r ∨ (id = k.launchId ∧
      ((∃ now updatedAt, r' = { r.expired now with updatedAt := updatedAt }) ∨
        ∃ expiresAt updatedAt, r' = { r with expiresAt := expiresAt, updatedAt := updatedAt })))
  /-- An authorized plain retry of a launch that has a successor returns
  that one. -/
  answers : ∀ c k principal retry b rb rp, s.callers c = some k →
    k.op = .retry principal retry → retry.replay = none → (∀ result, k.phase ≠ .done result) →
    s.launches k.launchId = some rp → authorizeRequester principal rp "retry" = .ok () →
    s.launches b = some rb → rb.retryOfLaunchId = some k.launchId →
    ∀ bs t k' result, Run (step settings) Free s bs t → t.callers c = some k' →
      k'.phase = .done result → result = .ok b
  /-- It does return once the row lock is free. -/
  returns : ∀ c k principal retry b rb rp, s.callers c = some k →
    k.op = .retry principal retry → k.phase = .start → s.launches k.launchId = some rp →
    authorizeRequester principal rp "retry" = .ok () → s.launches b = some rb →
    rb.retryOfLaunchId = some k.launchId → s.locks k.launchId = none → Returns settings s c

/-- **The chain of retries is linear**, in every run. -/
theorem retry_chain_linear {as : List Act} (h : Run (step settings) Free State.initial as s) :
    RetryChain settings s := by
  have hs : RetryInv s := h.invariant (fun hs _ hstep => retryInv_step hs hstep) retryInv_initial
  refine ⟨?_, ?_, ?_, ?_, ?_, ?_⟩
  · intro p a b ra rb ha hb hpa hpb
    have hindex := (hs.linked a ra p ha hpa).1
    rw [(hs.linked b rb p hb hpb).1] at hindex
    exact (Option.some.inj hindex).symm
  · intro p b rb hb hp
    exact (hs.linked b rb p hb hp).2
  · intro a t p b rb hstep hnone hb hp
    rcases row_origin hstep hb with ⟨r, hr, -⟩ | ⟨-, hcreated⟩
    · rw [hnone] at hr
      cases hr
    obtain ⟨-, rp, hrp, hterminal, -⟩ := hs.linked_new hstep hcreated hp
    refine ⟨rp, hrp, hterminal, ?_⟩
    obtain ⟨rp', hrp', hrow⟩ := row_step hstep hrp
    -- the creation writes no row that stands
    cases hrow with
    | same => exact hrp'
    | written hact hcaller hid hwrites hfree =>
      subst hact
      cases hcreated with
      | first hact' | retry hact' => cases hact'
  · intro a t c k principal retry id r hstep hact hcaller hop hr
    obtain ⟨r', hr', hrow⟩ := row_step hstep hr
    exact ⟨r', hr', retry_writes hs.holders hact hcaller hop hr hrow⟩
  · intro c k principal retry b rb rp hcaller hop hplain hopen hrp hauthorized hb hp bs t k' result
      hrun hcaller' hdone
    have hanswering : Answering c k.launchId b principal retry s :=
      { inv := hs
        index := (hs.linked b rb _ hb hp).1
        authorized := fun r hr => by
          rw [hrp] at hr
          cases hr
          exact hauthorized
        caller := ⟨k, hcaller, rfl, hop, fun result hdone => absurd hdone (hopen result)⟩ }
    have ht : Answering c k.launchId b principal retry t :=
      hrun.invariant (fun hs _ hstep => answering_step hplain hs hstep) hanswering
    obtain ⟨k'', hcaller'', -, -, hresult⟩ := ht.caller
    rw [hcaller'] at hcaller''
    cases hcaller''
    exact hresult result hdone
  · intro c k principal retry b rb rp hcaller hop hphase hrp hauthorized hb hp hfree
    exact returns_start hcaller hop hphase hrp hauthorized hfree (hs.linked b rb _ hb hp).1

def sampleSessionId : Uuid := ⟨"60000000-0000-4000-8000-000000000001"⟩

def sampleSuccessorId : Uuid := ⟨"10000000-0000-4000-8000-000000000002"⟩

def sampleRetry : TaskLaunchRetry := { expiresIn := sampleTtl, replay := none }

/-- A member of the project who did not request the launch. -/
def otherPrincipal : Principal :=
  { machine :=
      { id := ⟨"40000000-0000-4000-8000-000000000002"⟩
        ownerUserId := ⟨"50000000-0000-4000-8000-000000000002"⟩ }
    role := .developer
    projectScope := .projects [sampleProjectId] }

/-- An accepted launch with an open session is overdue when its requester
retries it. -/
def overdueRun : List Act :=
  [.create sampleLaunchId sampleProjectId sampleUserId sampleCreate 0,
    .call 0 sampleLaunchId (.report samplePrincipal (sampleReport 1 .accepted)),
    .advance 0, .advance 0, .advance 0, .advance 0, .advance 0, .advance 0,
    .startSession sampleSessionId (some sampleMachineId) (some sampleTaskId),
    .call 1 sampleLaunchId (.link sampleSessionId), .advance 1, .advance 1,
    .tick (seconds 60), .call 2 sampleLaunchId (.retry samplePrincipal sampleRetry),
    .advance 2, .advance 2, .advance 2, .advance 2]

/-- The machine reports its failure before the retry has the lock again;
then somebody else retries. -/
def failedRun : List Act :=
  [.call 3 sampleLaunchId (.report samplePrincipal (sampleReport 2 .failed)),
    .advance 3, .advance 3, .advance 3, .advance 3, .advance 3, .advance 3,
    .advance 2, .advance 2, .createRetry 2 sampleSuccessorId,
    .call 4 sampleLaunchId (.retry otherPrincipal sampleRetry), .advance 4]

theorem retry_chain_linear_sample : ∃ s rb, Run (step sampleSettings) Free State.initial
        (overdueRun ++ .advance 2 :: failedRun) s ∧
      s.launches sampleSuccessorId = some rb ∧ rb.retryOfLaunchId = some sampleLaunchId ∧
      ∃ rp, s.launches sampleLaunchId = some rp ∧ rb.attempt = rp.attempt + 1 := by
  obtain ⟨s, hrun, rb, hrb, hp⟩ : ∃ s, execWithin (step sampleSettings) Free State.initial
        (overdueRun ++ .advance 2 :: failedRun) = some s ∧
      ∃ rb, s.launches sampleSuccessorId = some rb ∧
        rb.retryOfLaunchId = some sampleLaunchId :=
    ⟨_, rfl, _, rfl, rfl⟩
  have hs := Run.of_execWithin hrun
  exact ⟨s, rb, hs, hrb, hp, (retry_chain_linear hs).attempts _ _ _ hrb hp⟩

/-- The retry that creates the successor has prolonged its live
predecessor before; and a plain retry of the retried launch by somebody
else does not return the successor. -/
theorem retry_prolongs_and_refuses :
    ∃ s t u r r', Run (step sampleSettings) Free State.initial overdueRun s ∧
      step sampleSettings s (.advance 2) = some t ∧
      s.launches sampleLaunchId = some r ∧ t.launches sampleLaunchId = some r' ∧
      r'.status = r.status ∧ r.expiresAt < r'.expiresAt ∧
      Run (step sampleSettings) Free t failedRun u ∧
      (u.callers 2).map Caller.phase = some (.done (.ok sampleSuccessorId)) ∧
      (u.launches sampleSuccessorId).bind Launch.retryOfLaunchId = some sampleLaunchId ∧
      (u.callers 4).map Caller.phase = some (.done (.error (forbidden "task_launch" "retry"))) :=
  ⟨_, _, _, _, _, Run.of_execWithin rfl, rfl, rfl, rfl, rfl, by decide, Run.of_execWithin rfl, rfl,
    rfl, rfl⟩

end StudioOS.Launches
