import StudioOS.Launch.Steps

/-!
# Launch — Locking

What the row lock gives: a caller that holds it is the one in the lock
table, and carries the row as it stands (`HolderInv`). Nothing here
assumes anything about the run.
-/

namespace StudioOS.Launches

open Authz Runs

variable {settings : Settings} {s t : State} {c : CallerId} {k : Caller}

/-- The row a caller carries. -/
def Phase.row : Phase → Option Launch
  | .loaded row | .timed row _ | .decided row .. | .checking _ row _ | .relocked row
  | .creating row | .linking row => some row
  | .start | .authorized | .committed | .done _ => none

/-- The service locks its launch. -/
def Op.locks : Op → Bool
  | .view | .link _ => false
  | .report .. | .cancel .. | .retry .. => true

/-- Between the lock of the row and the end of the transaction. -/
def Phase.locked : Phase → Bool
  | .loaded _ | .timed .. | .decided .. | .relocked _ | .creating _ => true
  | .checking locked .. => locked
  | .start | .authorized | .committed | .linking _ | .done _ => false

/-- The caller holds the row lock of its launch. -/
def Caller.holds (k : Caller) : Bool := k.op.locks && k.phase.locked

theorem holds_iff : k.holds = true ↔ k.op.locks = true ∧ k.phase.locked = true :=
  Bool.and_eq_true_iff

theorem kept_row {row assigned} (hop : k.op.locks = true) :
    (k.kept row assigned).row = some row := by
  unfold Caller.kept
  cases hk : k.op with
  | view | link => rw [hk] at hop; cases hop
  | report | cancel | retry => rfl

theorem evaluated_locked : k.evaluated.locked = false := by
  unfold Caller.evaluated
  split <;> rfl

/-- **The lock invariant**: a caller that holds the row lock is the one in
the lock table, and carries the row as it stands. -/
def HolderInv (s : State) : Prop :=
  ∀ c k, s.callers c = some k → k.holds = true →
    s.locks k.launchId = some c ∧
      ∃ row, k.phase.row = some row ∧ s.launches k.launchId = some row

theorem holderInv_initial : HolderInv State.initial := by
  intro c k hcaller
  cases hcaller

theorem HolderInv.current (h : HolderInv s) (hcaller : s.callers c = some k)
    (hholds : k.holds = true) {row r} (hrow : k.phase.row = some row)
    (hr : s.launches k.launchId = some r) : row = r := by
  obtain ⟨-, row', hrow', hlaunch⟩ := h c k hcaller hholds
  rw [hrow] at hrow'
  rw [hr] at hlaunch
  cases hrow'
  exact (Option.some.inj hlaunch).symm

/-- A step of one caller keeps the invariant when it leaves what other
holders stand on. -/
theorem HolderInv.update (h : HolderInv s) {k'}
    (hcallers : t.callers = Function.update s.callers c (some k'))
    (hframe : ∀ c' id row, c' ≠ c → s.locks id = some c' → s.launches id = some row →
      t.locks id = some c' ∧ t.launches id = some row)
    (hself : k'.holds = true → t.locks k'.launchId = some c ∧
      ∃ row, k'.phase.row = some row ∧ t.launches k'.launchId = some row) : HolderInv t := by
  intro c' k'' hcaller hholds
  rw [hcallers] at hcaller
  rcases update_some hcaller with ⟨rfl, rfl⟩ | ⟨hc, hcaller⟩
  · exact hself hholds
  · obtain ⟨hlock, row, hrow, hlaunch⟩ := h c' k'' hcaller hholds
    obtain ⟨hlock', hlaunch'⟩ := hframe c' _ row hc hlock hlaunch
    exact ⟨hlock', row, hrow, hlaunch'⟩

theorem Silent.holds {phase} (h : Silent settings s k phase) (hop : k.op.locks = true)
    (hlocked : phase.locked = true) : k.phase.locked = true ∧ phase.row = k.phase.row := by
  cases h with
  | load hphase hview hrow =>
    rw [hview] at hop
    cases hop
  | authorize | loadLink => cases hlocked
  | time hphase | decide hphase =>
    rw [hphase]
    exact ⟨rfl, rfl⟩
  | keep hphase =>
    rw [hphase]
    exact ⟨rfl, kept_row hop⟩
  | extend hphase hpersist =>
    rw [hphase]
    exact ⟨rfl, kept_row hop⟩
  | reread hphase hnot hrow => cases hlocked
  | toCreate hphase hnone hterminal =>
    rw [hphase]
    exact ⟨rfl, rfl⟩

theorem put_frame {row} (hfree : s.locks k.launchId = none ∨ s.locks k.launchId = some c) {c' id r}
    (hne : c' ≠ c) (hlock : s.locks id = some c')
    (hr : s.launches id = some r) : (s.put k row).launches id = some r := by
  change Function.update s.launches k.launchId _ id = some r
  rw [Function.update_of_ne]
  · exact hr
  rintro rfl
  rcases hfree with hfree | hfree
  · rw [hfree] at hlock
    cases hlock
  · rw [hfree] at hlock
    exact hne (Option.some.inj hlock).symm

theorem HolderInv.moves (h : HolderInv s) (hcaller : s.callers c = some k)
    (hmoves : Moves settings s c k t) : HolderInv t := by
  cases hmoves with
  | silent hsilent =>
    refine h.update rfl (fun c' id row _ hlock hrow => ⟨hlock, hrow⟩) fun hholds => ?_
    obtain ⟨hop, hlocked⟩ := holds_iff.mp hholds
    obtain ⟨hlocked', hrow'⟩ := hsilent.holds hop hlocked
    obtain ⟨hlock, row, hrow, hlaunch⟩ := h c k hcaller (holds_iff.mpr ⟨hop, hlocked'⟩)
    exact ⟨hlock, row, hrow'.trans hrow, hlaunch⟩
  | locks hrow hfree hlocks =>
    refine h.update rfl (fun c' id row hne hlock hrow => ⟨?_, hrow⟩) fun _ => ?_
    · change Function.update s.locks k.launchId _ id = some c'
      rw [Function.update_of_ne]
      · exact hlock
      · rintro rfl
        rw [hfree] at hlock
        cases hlock
    · refine ⟨Function.update_self .., _, ?_, hrow⟩
      cases hlocks <;> rfl
  | answers hanswers =>
    rw [finish_eq]
    refine h.update rfl (fun c' id row hne hlock hrow => ⟨locksWithout_other hne hlock, hrow⟩)
      fun hholds => ?_
    cases (holds_iff.mp hholds).2
  | prolongs hphase hop hcurrent hfree =>
    rw [nextTransaction_eq]
    refine h.update rfl (fun c' id row hne hlock hrow =>
      ⟨locksWithout_other hne hlock, put_frame hfree hne hlock hrow⟩) fun hholds => ?_
    have hlocked := (holds_iff.mp hholds).2
    rw [evaluated_locked] at hlocked
    cases hlocked
  | expires hphase hcurrent hfree =>
    rw [nextTransaction_eq]
    refine h.update rfl (fun c' id row hne hlock hrow =>
      ⟨locksWithout_other hne hlock, put_frame hfree hne hlock hrow⟩) fun hholds => ?_
    have hlocked := (holds_iff.mp hholds).2
    rw [evaluated_locked] at hlocked
    cases hlocked
  | assigns hassigns hcurrent hfree =>
    rw [finish_eq]
    refine h.update rfl (fun c' id row hne hlock hrow =>
      ⟨locksWithout_other hne hlock, put_frame hfree hne hlock hrow⟩) fun hholds => ?_
    cases (holds_iff.mp hholds).2

theorem HolderInv.rows (h : HolderInv s) (hcallers : t.callers = s.callers)
    (hlocks : t.locks = s.locks)
    (hrows : ∀ id row, s.launches id = some row → t.launches id = some row) : HolderInv t := by
  intro c k hcaller hholds
  rw [hcallers] at hcaller
  obtain ⟨hlock, row, hrow, hlaunch⟩ := h c k hcaller hholds
  rw [hlocks]
  exact ⟨hlock, row, hrow, hrows _ row hlaunch⟩

theorem holderInv_step {a} (h : HolderInv s) (hstep : step settings s a = some t) :
    HolderInv t := by
  cases a with
  | advance c =>
    obtain ⟨k, hcaller, hadvance⟩ := Option.bind_eq_some_iff.mp hstep
    exact h.moves hcaller (advance_moves hadvance)
  | createRetry c newId =>
    obtain ⟨k, hcaller, hcreate⟩ := Option.bind_eq_some_iff.mp hstep
    obtain ⟨principal, retry, row, hop, hphase, hfresh, hindex, rfl⟩ := createRetry_eq hcreate
    refine h.update rfl (fun c' id r hne hlock hr =>
      ⟨locksWithout_other hne hlock, insert_row hr hfresh⟩) fun hholds => ?_
    cases (holds_iff.mp hholds).2
  | refuseRetry c e =>
    obtain ⟨k, hcaller, hrefuse⟩ := Option.bind_eq_some_iff.mp hstep
    obtain ⟨row, hphase, rfl⟩ := refuseRetry_eq hrefuse
    rw [finish_eq]
    refine h.update rfl (fun c' id row hne hlock hrow => ⟨locksWithout_other hne hlock, hrow⟩)
      fun hholds => ?_
    cases (holds_iff.mp hholds).2
  | create launchId projectId requestedByUserId launchIn began =>
    simp only [step] at hstep
    split at hstep
    · rename_i hfresh
      cases hstep
      exact h.rows rfl rfl fun id row hrow => insert_row hrow hfresh.1
    · cases hstep
  | call c launchId op =>
    simp only [step] at hstep
    split at hstep
    · cases hstep
      refine h.update rfl (fun c' id row _ hlock hrow => ⟨hlock, hrow⟩) fun hholds => ?_
      cases (holds_iff.mp hholds).2
    · cases hstep
  | startSession | claim =>
    simp only [step] at hstep
    split at hstep
    · cases hstep
      exact h.rows rfl rfl fun id row hrow => hrow
    · cases hstep
  | tick | touchSession | endSession | releaseClaim =>
    cases hstep
    exact h.rows rfl rfl fun id row hrow => hrow

end StudioOS.Launches
