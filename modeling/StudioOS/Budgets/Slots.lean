import Mathlib.Data.List.Perm.Basic
import StudioOS.Budgets.System

/-!
# Budgets — Slots

Under an approved `enforce` policy the slots hold, in every run and under any
clock: of the launches a project admitted, at most `max_active_launches` are
live, apart from the lapsed ones (`slots_never_exceeded`).
-/

namespace StudioOS.Budgets

open List Option Authz Launches Runs

/-- The run is live and has not lapsed. -/
def inSlot (launches : Uuid → Option Launch) (lapsed : List Uuid) (id : Uuid) : Bool :=
  (launches id).any (fun launch => !launch.status.isTerminal) && !decide (id ∈ lapsed)

variable {id : Uuid} {admission : Admission} {base : Launches.State} {requestedByUserId : Uuid} {row : Launch} {newId : Uuid}

theorem inSlot_iff {launches lapsed} :
    inSlot launches lapsed id = true ↔
      (∃ launch, launches id = some launch ∧ launch.status.isTerminal = false) ∧ id ∉ lapsed := by
  cases h : launches id <;> simp [inSlot, h]

def slotsInUse (launches : Uuid → Option Launch) (lapsed : List Uuid) (rows : List Reservation) :
    Nat :=
  rows.countP fun r => inSlot launches lapsed r.taskLaunchId

/-- The runs of the project fit into its slots. -/
def Fits (policies : Policies) (p : Uuid) (n : Nat) : Prop :=
  ∀ policy m, policies.of p = some policy → policy.effectiveMode = .enforce →
    policy.maxActiveLaunches = some m → n ≤ m

theorem Fits.le {policies p n n'} (h : Fits policies p n) (hle : n' ≤ n) : Fits policies p n' :=
  fun policy m hpolicy hmode hm => Nat.le_trans hle (h policy m hpolicy hmode hm)

/-- The reservations of one project, as somebody sees them. -/
structure Accounted (policies : Policies) (p : Uuid) (launches : Uuid → Option Launch)
    (lapsed : List Uuid) (rows : List Reservation) : Prop where
  mine : ∀ r ∈ rows, r.projectId = p
  known : ∀ r ∈ rows, ∃ launch, launches r.taskLaunchId = some launch ∧ launch.projectId = p
  unheld : ∀ r ∈ rows, r.status ≠ .held → inSlot launches lapsed r.taskLaunchId = false
  once : (rows.map (·.taskLaunchId)).Nodup
  fits : Fits policies p (slotsInUse launches lapsed rows)

section Accounted

variable {policies : Policies} {p : Uuid} {launches launches' : Uuid → Option Launch}
  {lapsed lapsed' : List Uuid}

theorem inSlot_mono (hends : Ends launches launches') (hlapsed : lapsed ⊆ lapsed')
    (hknown : ∃ launch, launches id = some launch) (h : inSlot launches' lapsed' id = true) :
    inSlot launches lapsed id = true := by
  obtain ⟨⟨launch', hlaunch', hlive⟩, hnot⟩ := inSlot_iff.1 h
  obtain ⟨launch, hlaunch⟩ := hknown
  obtain ⟨launch'', hlaunch'', -, hterminal⟩ := hends id launch hlaunch
  rw [hlaunch'] at hlaunch''
  cases hlaunch''
  refine inSlot_iff.2 ⟨⟨launch, hlaunch, ?_⟩, fun hmem => hnot (hlapsed hmem)⟩
  by_contra hended
  rw [hterminal (eq_true_of_ne_false hended)] at hlive
  cases hlive

theorem slotsInUse_mono {rows} (hends : Ends launches launches') (hlapsed : lapsed ⊆ lapsed')
    (hknown : ∀ r ∈ rows, ∃ launch, launches r.taskLaunchId = some launch) :
    slotsInUse launches' lapsed' rows ≤ slotsInUse launches lapsed rows :=
  countP_mono_left fun r hr h => inSlot_mono hends hlapsed (hknown r hr) h

theorem Accounted.exists_launch {rows} (h : Accounted policies p launches lapsed rows) :
    ∀ r ∈ rows, ∃ launch, launches r.taskLaunchId = some launch := fun r hr => by
  obtain ⟨launch, hlaunch, -⟩ := h.known r hr
  exact ⟨launch, hlaunch⟩

theorem Accounted.mono {rows} (h : Accounted policies p launches lapsed rows)
    (hends : Ends launches launches') (hlapsed : lapsed ⊆ lapsed') :
    Accounted policies p launches' lapsed' rows where
  mine := h.mine
  known := by
    intro r hr
    obtain ⟨launch, hlaunch, hproject⟩ := h.known r hr
    obtain ⟨launch', hlaunch', hsame, -⟩ := hends _ launch hlaunch
    exact ⟨launch', hlaunch', hsame.trans hproject⟩
  unheld := by
    intro r hr hheld
    rw [Bool.eq_false_iff]
    intro hslot
    have := h.unheld r hr hheld
    rw [inSlot_mono hends hlapsed (h.exists_launch r hr) hslot] at this
    cases this
  once := h.once
  fits := h.fits.le (slotsInUse_mono hends hlapsed h.exists_launch)

theorem accounted_nil : Accounted policies p launches lapsed [] where
  mine := by simp
  known := by simp
  unheld := by simp
  once := nodup_nil
  fits := fun _ _ _ _ _ => Nat.zero_le _

end Accounted

/-! ## The statements of a transaction -/

section Statements

variable {policies : Policies} {policy : BudgetPolicy} {p : Uuid} {tx : Tx}
  {launches : Uuid → Option Launch} {ledger : List UsageEntry} {now : Timestamp}
  {lapsed : List Uuid}

/-- What `reconcile` does to one reservation. -/
def reconciledRow (policy : BudgetPolicy) (launches : Uuid → Option Launch)
    (ledger : List UsageEntry) (now : Timestamp) (r : Reservation) : Reservation :=
  match launches r.taskLaunchId with
  | none => r
  | some launch =>
    if isOver policy.projectId launches now r then r.reconcile launch policy ledger now else r

theorem Reservation.reconcile_same (r : Reservation) (launch) :
    (r.reconcile launch policy ledger now).taskLaunchId = r.taskLaunchId ∧
      (r.reconcile launch policy ledger now).projectId = r.projectId := by
  unfold Reservation.reconcile
  repeat' split
  all_goals exact ⟨rfl, rfl⟩

theorem reconciledRow_same (r) :
    (reconciledRow policy launches ledger now r).taskLaunchId = r.taskLaunchId ∧
      (reconciledRow policy launches ledger now r).projectId = r.projectId := by
  unfold reconciledRow
  split
  · exact ⟨rfl, rfl⟩
  · rename_i launch hlaunch
    split
    · exact r.reconcile_same launch
    · exact ⟨rfl, rfl⟩

/-- A reservation that `reconcile` settles belongs to a run that has ended,
or lapses by it. -/
theorem reconciledRow_held {r} (hr : r ∈ tx.view) (hheld : r.status = .held)
    (hsettled : (reconciledRow policy launches ledger now r).status ≠ .held) :
    inSlot launches (lapsed ++ (tx.reconcile policy launches ledger now).lapsed)
      r.taskLaunchId = false := by
  rw [Bool.eq_false_iff]
  intro hslot
  obtain ⟨⟨launch, hlaunch, hlive⟩, hnot⟩ := inSlot_iff.1 hslot
  simp only [reconciledRow, hlaunch] at hsettled
  split at hsettled
  · rename_i hover
    refine hnot (mem_append_right _ (mem_append_right _ ?_))
    refine List.mem_map.2 ⟨r, mem_filter.2 ⟨hr, ?_⟩, rfl⟩
    simp [hlaunch, hheld, hlive, hover, hsettled]
  · exact hsettled hheld

theorem Accounted.reconcile (h : Accounted policies p launches (lapsed ++ tx.lapsed) tx.view) :
    Accounted policies p launches (lapsed ++ (tx.reconcile policy launches ledger now).lapsed)
      (tx.reconcile policy launches ledger now).view := by
  have hsub : lapsed ++ tx.lapsed ⊆ lapsed ++ (tx.reconcile policy launches ledger now).lapsed := by
    rw [Tx.reconcile, ← append_assoc]
    exact subset_append_left _ _
  have h' := h.mono (Ends.refl launches) hsub
  have hview : (tx.reconcile policy launches ledger now).view =
      tx.view.map (reconciledRow policy launches ledger now) := rfl
  have hlaunch : ∀ r, (reconciledRow policy launches ledger now r).taskLaunchId = r.taskLaunchId :=
    fun r => (reconciledRow_same r).1
  rw [hview]
  refine ⟨?_, ?_, ?_, ?_, ?_⟩
  · intro r' hr'
    obtain ⟨r, hr, rfl⟩ := List.mem_map.1 hr'
    exact (reconciledRow_same r).2.trans (h'.mine r hr)
  · intro r' hr'
    obtain ⟨r, hr, rfl⟩ := List.mem_map.1 hr'
    rw [hlaunch]
    exact h'.known r hr
  · intro r' hr' hsettled
    obtain ⟨r, hr, rfl⟩ := List.mem_map.1 hr'
    rw [hlaunch]
    by_cases hheld : r.status = .held
    · exact reconciledRow_held hr hheld hsettled
    · exact h'.unheld r hr hheld
  · rw [List.map_map, show (fun r : Reservation => r.taskLaunchId) ∘
      reconciledRow policy launches ledger now = fun r => r.taskLaunchId from funext hlaunch]
    exact h'.once
  · have hcount : slotsInUse launches (lapsed ++ (tx.reconcile policy launches ledger now).lapsed)
        (tx.view.map (reconciledRow policy launches ledger now)) =
        slotsInUse launches (lapsed ++ (tx.reconcile policy launches ledger now).lapsed) tx.view := by
      rw [slotsInUse, countP_map]
      exact countP_congr fun r _ => by simp only [Function.comp_apply, hlaunch]
    rw [hcount]
    exact h'.fits

theorem decideAdmission_slots {rows m} (hmode : policy.effectiveMode = .enforce)
    (hm : policy.maxActiveLaunches = some m)
    (h : decideAdmission policy rows launches ledger now = .ok admission) :
    activeLaunches policy.projectId rows launches now < m := by
  obtain ⟨alerts, hslots, -⟩ := bind_ok h
  simp only [checkSlots, hm, hmode, if_true] at hslots
  split at hslots
  · cases hslots
  · rename_i hfree
    exact Nat.lt_of_not_le hfree

theorem slotsInUse_le_active {s : State}
    (h : Accounted policies p launches (lapsed ++ tx.lapsed) tx.view) :
    slotsInUse launches (lapsed ++ (tx.grant launches now admission).lapsed) tx.view ≤
      activeLaunches p (s.seen p tx) launches now := by
  refine Nat.le_trans (countP_mono_left fun r hr hslot => ?_)
    (List.Sublist.countP_le (sublist_append_right _ _))
  obtain ⟨⟨launch, hlaunch, hlive⟩, hnot⟩ := inSlot_iff.1 hslot
  have hheld : r.status = .held := by
    by_contra hne
    have hover := h.unheld r hr hne
    rw [Bool.eq_false_iff] at hover
    refine hover (inSlot_iff.2 ⟨⟨launch, hlaunch, hlive⟩, fun hmem => hnot ?_⟩)
    rw [Tx.grant, ← append_assoc]
    exact mem_append_left _ hmem
  have hearly : now < launch.expiresAt := by
    by_contra hlate
    refine hnot (mem_append_right _ (mem_append_right _ ?_))
    refine List.mem_map.2 ⟨r, mem_filter.2 ⟨hr, ?_⟩, rfl⟩
    simp [hheld, hlaunch, hlive, Nat.le_of_not_lt hlate]
  simp [h.mine r hr, hheld, hlaunch, hlive, hearly]

end Statements

/-- An open transaction. -/
structure TxInv (policies : Policies) (p : Uuid) (s : State) (tx : Tx) : Prop where
  accounted : Accounted policies p (tx.launches s.base.launches) (s.lapsed ++ tx.lapsed) tx.view
  free : ∀ now admission, tx.phase = .admitted now admission → Fits policies p
    (slotsInUse (tx.launches s.base.launches) (s.lapsed ++ tx.lapsed) tx.view + 1)

/-- **The slot invariant.** -/
structure SlotsInv (policies : Policies) (s : State) : Prop where
  terminal : TerminalInv s.base
  table : ∀ p, Accounted policies p s.base.launches s.lapsed (s.rowsOf p)
  transactions : ∀ p tx, s.transactions p = some tx → TxInv policies p s tx

section Steps

variable {settings : Settings} {policies : Policies} {s t : State} {p : Uuid} {tx : Tx}

theorem slotsInv_start (h : TerminalInv base) : SlotsInv policies (State.start base) where
  terminal := h
  table := fun p => accounted_nil
  transactions := by
    intro p tx htx
    cases htx

theorem Tx.launches_ends (tx : Tx) {launches launches'}
    (h : Ends launches launches') : Ends (tx.launches launches) (tx.launches launches') := by
  intro id r hr
  unfold Tx.launches at hr ⊢
  cases hstaged : tx.staged.lookup id with
  | some row =>
    rw [hstaged] at hr
    exact ⟨r, hr, rfl, fun hterminal => hterminal⟩
  | none =>
    rw [hstaged, none_or] at hr
    rw [none_or]
    exact h id r hr

theorem TxInv.mono (h : TxInv policies p s tx) (hends : Ends s.base.launches t.base.launches)
    (hlapsed : s.lapsed ⊆ t.lapsed) : TxInv policies p t tx := by
  have hends' := tx.launches_ends hends
  have hlapsed' : s.lapsed ++ tx.lapsed ⊆ t.lapsed ++ tx.lapsed := fun id hid => by
    rcases mem_append.1 hid with hid | hid
    · exact mem_append_left _ (hlapsed hid)
    · exact mem_append_right _ hid
  refine ⟨h.accounted.mono hends' hlapsed', fun now admission hphase => ?_⟩
  refine (h.free now admission hphase).le (Nat.succ_le_succ ?_)
  exact slotsInUse_mono hends' hlapsed' h.accounted.exists_launch

theorem SlotsInv.frame (h : SlotsInv policies s) (hterminal : TerminalInv t.base)
    (hends : Ends s.base.launches t.base.launches) (hlapsed : t.lapsed = s.lapsed)
    (hrows : t.reservations = s.reservations)
    (htransactions : ∀ p tx, t.transactions p = some tx → s.transactions p = some tx) :
    SlotsInv policies t where
  terminal := hterminal
  table := fun p => by
    rw [State.rowsOf, hrows, hlapsed]
    exact (h.table p).mono hends (List.Subset.refl _)
  transactions := fun p tx htx =>
    (h.transactions p tx (htransactions p tx htx)).mono hends (hlapsed ▸ List.Subset.refl _)

theorem SlotsInv.setTx (h : SlotsInv policies s) (htx : TxInv policies p s tx) :
    SlotsInv policies (s.setTx p (some tx)) where
  terminal := h.terminal
  table := h.table
  transactions := by
    intro q tx' htx'
    change Function.update s.transactions p (some tx) q = some tx' at htx'
    rcases update_some htx' with ⟨rfl, rfl⟩ | ⟨hq, htx'⟩
    · exact ⟨htx.accounted, htx.free⟩
    · exact ⟨(h.transactions q tx' htx').accounted, (h.transactions q tx' htx').free⟩

/-! ## Each step -/

theorem finishCaller_launches (base caller result) :
    (finishCaller base caller result).launches = base.launches := by
  unfold finishCaller
  split
  · rw [finish_eq]
  · rfl

theorem TerminalInv.finishCaller (h : TerminalInv base) (caller result) :
    TerminalInv (finishCaller base caller result) := by
  unfold Budgets.finishCaller
  split
  · exact h.finish result
  · exact h

theorem update_none_eq {q tx'} (h : Function.update s.transactions p none q = some tx') :
    s.transactions q = some tx' ∧ q ≠ p := by
  by_cases hq : q = p
  · subst hq
    rw [Function.update_self] at h
    cases h
  · rw [Function.update_of_ne hq] at h
    exact ⟨h, hq⟩

theorem SlotsInv.rollback (h : SlotsInv policies s) (e) : SlotsInv policies (s.rollback p tx e) :=
  h.frame (TerminalInv.finishCaller h.terminal _ _)
    (by rw [State.rollback, finishCaller_launches]; exact Ends.refl _) rfl rfl
    fun _ _ htx => (update_none_eq htx).1

theorem SlotsInv.launch (h : SlotsInv policies s) {act}
    (hstep : Launches.step settings s.base act = some base) :
    SlotsInv policies { s with base := base } :=
  h.frame (terminalInv_step h.terminal hstep) (ends_step h.terminal hstep) rfl rfl
    fun _ _ htx => htx

theorem SlotsInv.clock (h : SlotsInv policies s) (now) :
    SlotsInv policies { s with base := { s.base with clock := now } } :=
  h.frame (h.terminal.rows rfl rfl fun _ _ hrow => hrow) (Ends.refl _) rfl rfl fun _ _ htx => htx

theorem SlotsInv.lock (h : SlotsInv policies s) (caller began) :
    SlotsInv policies (s.setTx p (some
      { caller := caller, began := began, phase := .locked, view := s.rowsOf p
        staged := [], lapsed := [] })) := by
  refine h.setTx ⟨?_, fun now admission hphase => by cases hphase⟩
  refine (h.table p).mono (fun id r hr => ⟨r, ?_, rfl, fun hterminal => hterminal⟩)
    (subset_append_left _ _)
  exact hr

theorem SlotsInv.reconcileStep (h : SlotsInv policies s) {now}
    (hstep : s.reconcileStep policies p now = some t) : SlotsInv policies t := by
  obtain ⟨tx, htx, hstep⟩ := bind_eq_some_iff.1 hstep
  obtain ⟨policy, hpolicy, hstep⟩ := bind_eq_some_iff.1 hstep
  split at hstep
  · cases hstep
    refine h.setTx ⟨?_, fun now admission hphase => by cases hphase⟩
    exact (h.transactions p tx htx).accounted.reconcile
  · cases hstep

theorem TxInv.grant (h : TxInv policies p s tx) {policy now} (hpolicy : policies.of p = some policy)
    (hadmission : decideAdmission policy (s.seen p tx) (tx.launches s.base.launches) s.ledger now =
      .ok admission) :
    TxInv policies p s (tx.grant (tx.launches s.base.launches) now admission) := by
  refine ⟨h.accounted.mono (Ends.refl _) ?_, fun now' admission' _ policy' m hpolicy' hmode hm => ?_⟩
  · rw [Tx.grant, ← append_assoc]
    exact subset_append_left _ _
  · rw [hpolicy] at hpolicy'
    cases hpolicy'
    have hactive := decideAdmission_slots hmode hm hadmission
    rw [policies.keyed p policy hpolicy] at hactive
    exact Nat.lt_of_le_of_lt (slotsInUse_le_active h.accounted) hactive

theorem SlotsInv.decideStep (h : SlotsInv policies s) (hstep : s.decideStep policies p = some t) :
    SlotsInv policies t := by
  obtain ⟨tx, htx, hstep⟩ := bind_eq_some_iff.1 hstep
  obtain ⟨policy, hpolicy, hstep⟩ := bind_eq_some_iff.1 hstep
  split at hstep
  · dsimp only at hstep
    split at hstep
    · cases hstep
      exact h.rollback _
    · rename_i hadmission
      cases hstep
      exact h.setTx ((h.transactions p tx htx).grant hpolicy hadmission)
  · cases hstep

theorem newRow_eq {launchIn now} (h : tx.newRow base p requestedByUserId launchIn now = some row) :
    row.projectId = p := by
  unfold Tx.newRow at h
  split at h
  · cases h
    rfl
  · obtain ⟨_, -, rfl⟩ := map_eq_some_iff.1 h
    rfl

theorem TxInv.stage (h : TxInv policies p s tx) {now} (hphase : tx.phase = .admitted now admission)
    (hfresh : tx.launches s.base.launches newId = none) (hrow : row.projectId = p) :
    TxInv policies p s (tx.stage p newId row admission) := by
  have hnew : (tx.stage p newId row admission).launches s.base.launches newId = some row := by
    simp [Tx.launches, Tx.stage]
  have hold : ∀ id, id ≠ newId → (tx.stage p newId row admission).launches s.base.launches id =
      tx.launches s.base.launches id := by
    intro id hid
    simp [Tx.launches, Tx.stage, List.lookup_cons, beq_false_of_ne hid]
  have hends : Ends (tx.launches s.base.launches)
      ((tx.stage p newId row admission).launches s.base.launches) := by
    intro id r hr
    refine ⟨r, ?_, rfl, fun hterminal => hterminal⟩
    rw [hold id]
    · exact hr
    · rintro rfl
      rw [hfresh] at hr
      cases hr
  have hview := h.accounted.mono hends (List.Subset.refl (s.lapsed ++ tx.lapsed))
  have hcount : slotsInUse ((tx.stage p newId row admission).launches s.base.launches)
      (s.lapsed ++ tx.lapsed) (tx.view ++ [admission.record p newId tx.began]) ≤
      slotsInUse (tx.launches s.base.launches) (s.lapsed ++ tx.lapsed) tx.view + 1 := by
    rw [slotsInUse, countP_append]
    exact Nat.add_le_add (slotsInUse_mono hends (List.Subset.refl _) h.accounted.exists_launch)
      countP_le_length
  have hlast : ∀ r ∈ tx.view ++ [admission.record p newId tx.began],
      r ∈ tx.view ∨ r = admission.record p newId tx.began := by
    intro r hr
    simpa using hr
  refine ⟨⟨?_, ?_, ?_, ?_, (h.free now admission hphase).le hcount⟩, fun _ _ hphase => by cases hphase⟩
  · intro r hr
    rcases hlast r hr with hr | rfl
    · exact hview.mine r hr
    · rfl
  · intro r hr
    rcases hlast r hr with hr | rfl
    · exact hview.known r hr
    · exact ⟨row, hnew, hrow⟩
  · intro r hr hsettled
    rcases hlast r hr with hr | rfl
    · exact hview.unheld r hr hsettled
    · exact absurd rfl hsettled
  have hnotin : newId ∉ tx.view.map (·.taskLaunchId) := by
    intro hmem
    obtain ⟨r, hr, hid⟩ := List.mem_map.1 hmem
    obtain ⟨launch, hlaunch⟩ := h.accounted.exists_launch r hr
    rw [hid, hfresh] at hlaunch
    cases hlaunch
  change ((tx.view ++ [admission.record p newId tx.began]).map (·.taskLaunchId)).Nodup
  rw [map_append, map_singleton]
  refine nodup_append.2 ⟨h.accounted.once, by simp, fun a ha b hb hab => ?_⟩
  rw [mem_singleton] at hb
  subst hab
  rw [hb] at ha
  exact hnotin ha

theorem SlotsInv.stageStep {launchIn} (h : SlotsInv policies s)
    (hstep : s.stageStep p newId requestedByUserId launchIn = some t) : SlotsInv policies t := by
  obtain ⟨tx, htx, hstep⟩ := bind_eq_some_iff.1 hstep
  split at hstep
  · rename_i now admission hphase
    obtain ⟨row, hrow, hstep⟩ := bind_eq_some_iff.1 hstep
    split at hstep
    · rename_i hfresh
      cases hstep
      exact h.setTx ((h.transactions p tx htx).stage hphase hfresh (newRow_eq hrow))
    · cases hstep
  · cases hstep

theorem SlotsInv.againStep (h : SlotsInv policies s) (hstep : s.againStep p = some t) :
    SlotsInv policies t := by
  obtain ⟨tx, htx, hstep⟩ := bind_eq_some_iff.1 hstep
  split at hstep
  · cases hstep
    exact h.setTx ⟨(h.transactions p tx htx).accounted, fun _ _ hphase => by cases hphase⟩
  · cases hstep

theorem takeRetry_launches {base'} (h : takeRetry base tx = some base') :
    base'.launches = base.launches := by
  unfold takeRetry at h
  split at h
  · cases h
    rfl
  · obtain ⟨⟨k, _⟩, -, h⟩ := bind_eq_some_iff.1 h
    dsimp only at h
    split at h <;> cases h
    rw [finish_eq]
  · cases h

theorem TerminalInv.takeRetry {base'} (h : TerminalInv base)
    (htake : takeRetry base tx = some base') : TerminalInv base' := by
  unfold Budgets.takeRetry at htake
  split at htake
  · cases htake
    exact h
  · obtain ⟨⟨k, _⟩, -, htake⟩ := bind_eq_some_iff.1 htake
    dsimp only at htake
    split at htake <;> cases htake
    refine TerminalInv.finish ?_ _
    exact h.rows rfl rfl fun _ _ hrow => hrow
  · cases htake

theorem staged_new {launches} (hnew : tx.staged.all fun new => (launches new.1).isNone) {r}
    (hr : launches id = some r) : tx.launches launches id = some r := by
  unfold Tx.launches
  cases hstaged : tx.staged.lookup id with
  | none => rw [none_or, hr]
  | some row =>
    obtain ⟨l₁, l₂, hsplit, -⟩ := lookup_eq_some_iff.1 hstaged
    have hmem : (id, row) ∈ tx.staged := by
      rw [hsplit]
      exact mem_append_right _ mem_cons_self
    have hnone := List.all_eq_true.1 hnew _ hmem
    dsimp only at hnone
    rw [hr] at hnone
    cases hnone

theorem SlotsInv.commit (h : SlotsInv policies s) (htx : s.transactions p = some tx)
    (hcommit : s.commit p tx = some t) : SlotsInv policies t := by
  unfold State.commit at hcommit
  split at hcommit
  · rename_i hnew
    obtain ⟨base, hbase, rfl⟩ := map_eq_some_iff.1 hcommit
    have hlaunches : base.launches = tx.launches s.base.launches := takeRetry_launches hbase
    have hends : Ends s.base.launches base.launches := by
      intro id r hr
      rw [hlaunches]
      exact ⟨r, staged_new hnew hr, rfl, fun hterminal => hterminal⟩
    have hinserted : TerminalInv (insertStaged s.base tx) :=
      h.terminal.rows rfl rfl fun id row hrow => staged_new hnew hrow
    have hview := (h.transactions p tx htx).accounted
    refine ⟨TerminalInv.takeRetry hinserted hbase, fun q => ?_, fun q tx' htx' => ?_⟩
    · by_cases hq : q = p
      · subst hq
        have hrows : (s.seen q tx).filter (fun r => r.projectId = q) = tx.view := by
          have hothers : (s.reservations.filter fun r => r.projectId ≠ q).filter
              (fun r => r.projectId = q) = [] :=
            filter_eq_nil_iff.2 fun r hr => by simpa using (mem_filter.1 hr).2
          have hmine : tx.view.filter (fun r => r.projectId = q) = tx.view :=
            filter_eq_self.2 fun r hr => by simpa using hview.mine r hr
          rw [State.seen, filter_append, hothers, hmine, nil_append]
        change Accounted policies q base.launches (s.lapsed ++ tx.lapsed)
          ((s.seen q tx).filter fun r => r.projectId = q)
        rw [hrows, hlaunches]
        exact hview
      · have hrows : (s.seen p tx).filter (fun r => r.projectId = q) = s.rowsOf q := by
          rw [State.seen, filter_append, List.filter_filter, State.rowsOf]
          have hnone : tx.view.filter (fun r => r.projectId = q) = [] :=
            filter_eq_nil_iff.2 fun r hr => by simp [hview.mine r hr, Ne.symm hq]
          rw [hnone, append_nil]
          refine filter_congr fun r _ => ?_
          by_cases hr : r.projectId = q <;> simp [hr, hq]
        change Accounted policies q base.launches (s.lapsed ++ tx.lapsed)
          ((s.seen p tx).filter fun r => r.projectId = q)
        rw [hrows]
        exact (h.table q).mono hends (subset_append_left _ _)
    · exact (h.transactions q tx' (update_none_eq htx').1).mono hends
        (subset_append_left _ _)
  · cases hcommit

theorem SlotsInv.commitStep (h : SlotsInv policies s) (hstep : s.commitStep p = some t) :
    SlotsInv policies t := by
  obtain ⟨tx, htx, hstep⟩ := bind_eq_some_iff.1 hstep
  split at hstep
  · exact h.commit htx hstep
  · exact h.commit htx hstep
  · cases hstep

/-- **Every step keeps the slots.** -/
theorem slotsInv_step {a} (h : SlotsInv policies s)
    (hstep : step settings policies s a = some t) : SlotsInv policies t := by
  cases a with
  | launch act =>
    simp only [step] at hstep
    split at hstep
    · obtain ⟨base, hbase, rfl⟩ := map_eq_some_iff.1 hstep
      exact h.launch hbase
    · cases hstep
  | clock now =>
    cases hstep
    exact h.clock now
  | report ledger =>
    cases hstep
    exact h.frame h.terminal (Ends.refl _) rfl rfl fun _ _ htx => htx
  | lock p caller began =>
    simp only [step] at hstep
    split at hstep <;> cases hstep
    exact h.lock caller began
  | reconcile p now => exact h.reconcileStep hstep
  | decide p => exact h.decideStep hstep
  | stage p newId requestedByUserId launchIn => exact h.stageStep hstep
  | again p => exact h.againStep hstep
  | commit p => exact h.commitStep hstep
  | rollback p e =>
    obtain ⟨tx, -, rfl⟩ := map_eq_some_iff.1 hstep
    exact h.rollback e

end Steps

/-- The launch is one of the project's, admitted and not at its end. -/
def State.uses (s : State) (p id : Uuid) : Prop :=
  (∃ launch, s.base.launches id = some launch ∧ launch.projectId = p ∧
    launch.status.isTerminal = false) ∧ ∃ r ∈ s.reservations, r.taskLaunchId = id

instance (s : State) (p id : Uuid) : Decidable (s.uses p id) :=
  decidable_of_iff ((s.base.launches id).any (fun launch =>
      launch.projectId = p && !launch.status.isTerminal) = true ∧
    s.reservations.any (fun r => r.taskLaunchId = id) = true) <| by
    cases h : s.base.launches id <;> simp [State.uses, h]

/-- **Slots are never exceeded.** In any run, under any clock, over any launches of before the
policies: the launches that a project admitted, that are not terminal and that no settlement or slot
count found past their `expires_at`, are at most `max_active_launches`. -/
theorem slots_never_exceeded {settings : Settings} {policies : Policies}
    {before : List Launches.Act}
    {acts : List Act} {base : Launches.State} {s : State} {p : Uuid} {policy : BudgetPolicy} {m : Nat}
    (hbefore : Run (Launches.step settings) Free Launches.State.initial before base)
    (hrun : Run (step settings policies) Free (State.start base) acts s)
    (hpolicy : policies.of p = some policy) (hmode : policy.effectiveMode = .enforce)
    (hmax : policy.maxActiveLaunches = some m) {ids : List Uuid} (hnodup : ids.Nodup)
    (huses : ∀ id ∈ ids, s.uses p id ∧ id ∉ s.lapsed) : ids.length ≤ m := by
  have hbase : TerminalInv base :=
    hbefore.invariant (fun h _ hstep => terminalInv_step h hstep) terminalInv_initial
  have hinv : SlotsInv policies s :=
    hrun.invariant (fun h _ hstep => slotsInv_step h hstep) (slotsInv_start hbase)
  have hsub : ids ⊆ ((s.rowsOf p).filter fun r =>
      inSlot s.base.launches s.lapsed r.taskLaunchId).map (·.taskLaunchId) := by
    intro id hid
    obtain ⟨⟨⟨launch, hlaunch, hproject, hlive⟩, r, hr, rfl⟩, hnot⟩ := huses id hid
    have hmine : r ∈ s.rowsOf r.projectId := mem_filter.2 ⟨hr, by simp⟩
    obtain ⟨launch', hlaunch', hsame⟩ := (hinv.table r.projectId).known r hmine
    rw [hlaunch] at hlaunch'
    cases hlaunch'
    rw [← hsame, hproject] at hmine
    exact List.mem_map.2 ⟨r, mem_filter.2
      ⟨hmine, inSlot_iff.2 ⟨⟨launch, hlaunch, hlive⟩, hnot⟩⟩, rfl⟩
  calc ids.length
      ≤ (((s.rowsOf p).filter fun r =>
          inSlot s.base.launches s.lapsed r.taskLaunchId).map (·.taskLaunchId)).length :=
        (subperm_of_subset hnodup hsub).length_le
    _ = slotsInUse s.base.launches s.lapsed (s.rowsOf p) := by
        rw [length_map, slotsInUse, countP_eq_length_filter]
    _ ≤ m := (hinv.table p).fits policy m hpolicy hmode hmax

/-- One launch at a time. -/
def slotPolicy : BudgetPolicy where
  id := ⟨"60000000-0000-4000-8000-000000000001"⟩
  projectId := sampleProjectId
  mode := .enforce
  period := .lifetime
  currency := "EUR"
  costLimit := none
  tokenLimit := none
  maxActiveLaunches := some 1
  reservationCost := none
  reservationTokens := none
  unknownCost := .chargeReservation
  lateUsage := .holdReservation
  settleAfterSeconds := 60
  alertThresholds := []
  approvedAt := some 0

def slotPolicies : Policies where
  of := fun p => if p = sampleProjectId then some slotPolicy else none
  keyed := by
    intro p policy h
    split at h
    · rename_i hp
      cases h
      exact hp.symm
    · cases h

def secondLaunchId : Uuid := ⟨"10000000-0000-4000-8000-000000000002"⟩

/-- The transaction that admits one launch. -/
def admitAt (newId : Uuid) (now : Timestamp) : List Act :=
  [.lock sampleProjectId none now, .reconcile sampleProjectId now, .decide sampleProjectId,
    .stage sampleProjectId newId sampleUserId sampleCreate, .commit sampleProjectId]

/-- A launch is admitted, nobody pulls it, and after its minute another one
is. -/
def secondAdmission : List Act :=
  admitAt sampleLaunchId 0 ++ .clock (seconds 100) :: admitAt secondLaunchId (seconds 100)

theorem secondAdmission_run : ∃ s,
    Run (step sampleSettings slotPolicies) Free (State.start .initial) secondAdmission s ∧
      s.lapsed = [sampleLaunchId] ∧ s.uses sampleProjectId sampleLaunchId ∧
      s.uses sampleProjectId secondLaunchId := by
  have h : (execWithin (step sampleSettings slotPolicies) Free (State.start .initial)
      secondAdmission).any (fun s => decide (s.lapsed = [sampleLaunchId] ∧
        s.uses sampleProjectId sampleLaunchId ∧ s.uses sampleProjectId secondLaunchId)) = true := by
    decide
  obtain ⟨s, hs, hok⟩ := (Option.any_eq_true _ _).1 h
  exact ⟨s, Run.of_execWithin hs, of_decide_eq_true hok⟩

/-- The slot of the second launch is the only one in use. -/
theorem slots_never_exceeded_one_slot : ∃ s,
    Run (step sampleSettings slotPolicies) Free (State.start .initial) secondAdmission s ∧
      s.uses sampleProjectId secondLaunchId ∧ [secondLaunchId].length ≤ 1 := by
  obtain ⟨s, hrun, hlapsed, -, hsecond⟩ := secondAdmission_run
  have hpolicy : slotPolicies.of sampleProjectId = some slotPolicy := rfl
  refine ⟨s, hrun, hsecond, slots_never_exceeded (.nil _) hrun hpolicy rfl rfl (by decide)
    fun id hid => ?_⟩
  rw [mem_singleton] at hid
  subst hid
  exact ⟨hsecond, by rw [hlapsed]; decide⟩

/-- A launch past its `expires_at` that nobody has expired is live beside
the launch that got its slot. -/
theorem live_launches_exceed_slots : ∃ s,
    Run (step sampleSettings slotPolicies) Free (State.start .initial) secondAdmission s ∧
      slotPolicy.effectiveMode = .enforce ∧ slotPolicy.maxActiveLaunches = some 1 ∧
      [sampleLaunchId, secondLaunchId].Nodup ∧
      (∀ id ∈ [sampleLaunchId, secondLaunchId], s.uses sampleProjectId id) ∧
      ¬ [sampleLaunchId, secondLaunchId].length ≤ 1 := by
  obtain ⟨s, hrun, -, hfirst, hsecond⟩ := secondAdmission_run
  refine ⟨s, hrun, rfl, rfl, by decide, fun id hid => ?_, by decide⟩
  rcases mem_pair.1 hid with rfl | rfl
  · exact hfirst
  · exact hsecond

end StudioOS.Budgets
