import StudioOS.Daemon.Starts

/-!
# Daemon — Chain

The reports of one launch. The queue of a launch nobody else changes is a
CHAIN: each report carries the version the server will have when the ones
before it are applied, and its transition is allowed.
-/

namespace StudioOS.Daemon

open List Option

open Launches (TaskLaunchStatus TaskLaunchReasonCode TaskLaunchActor allowedTransitions)

/-! ## Chains -/

def own (X : Uuid) (outbox : Outbox) : List LaunchReport := outbox.filter fun r => r.launchId = X

/-- The reports apply one after the other from a status and a version. -/
def Chain : TaskLaunchStatus → Nat → List LaunchReport → Prop
  | _, _, [] => True
  | status, version, r :: rs =>
    r.expectedVersion = version ∧ allowedTransitions status r.status = some .machine ∧
      Chain r.status (version + 1) rs

def endStatus (status : TaskLaunchStatus) (rs : List LaunchReport) : TaskLaunchStatus :=
  rs.foldl (fun _ r => r.status) status

/-- The status and the version of a launch once its queue is delivered. -/
def tailOf (row : Option TaskLaunch) (rs : List LaunchReport) : Option (TaskLaunchStatus × Nat) :=
  row.map fun row => (endStatus row.status rs, row.version + rs.length)

/-- The queue of a launch nobody else changes. -/
structure Queued (row : Option TaskLaunch) (rs : List LaunchReport) : Prop where
  absent : row = none → rs = []
  chain : ∀ launch, row = some launch →
    launch.status ∉ stopStatuses ∧ Chain launch.status launch.version rs

theorem endStatus_append (status rs r) : endStatus status (rs ++ [r]) = r.status := by
  simp [endStatus]

variable {status : TaskLaunchStatus} {version : Nat} {rs : List LaunchReport} {r : LaunchReport}
  {outbox : Outbox}

theorem chain_append (h : Chain status version rs)
    (hversion : r.expectedVersion = version + rs.length)
    (hallowed : allowedTransitions (endStatus status rs) r.status = some .machine) :
    Chain status version (rs ++ [r]) := by
  induction rs generalizing status version with
  | nil => exact ⟨hversion, hallowed, trivial⟩
  | cons first rs ih =>
    obtain ⟨hfirst, hstatus, hrest⟩ := h
    refine ⟨hfirst, hstatus, ih hrest ?_ hallowed⟩
    rw [hversion, length_cons]
    omega

theorem chain_lt (h : Chain status version rs) (hr : r ∈ rs) :
    version ≤ r.expectedVersion ∧ r.expectedVersion < version + rs.length := by
  induction rs generalizing status version with
  | nil => cases hr
  | cons first rs ih =>
    obtain ⟨hfirst, -, hrest⟩ := h
    rw [length_cons]
    rcases mem_cons.mp hr with rfl | hmem
    · omega
    · have := ih hrest hmem
      omega

/-- What the machine may make of a status is no cancellation and no expiry. -/
theorem machine_status {a b} (h : allowedTransitions a b = some .machine) :
    b ∉ stopStatuses ∧ b ≠ .requested := by
  revert h
  cases a <;> cases b <;> simp [allowedTransitions, stopStatuses]

/-- A chain from an owned launch to one that is not owned has the
report that ends it. -/
theorem chain_ends (h : Chain status version rs) (howned : status ∈ ownedStatuses)
    (hend : endStatus status rs ∉ ownedStatuses) : ∃ r ∈ rs, r.status.isTerminal = true := by
  induction rs generalizing status version with
  | nil => exact absurd howned hend
  | cons r rs ih =>
    obtain ⟨-, hallowed, hrest⟩ := h
    by_cases hnext : r.status ∈ ownedStatuses
    · obtain ⟨last, hmem, hterminal⟩ := ih hrest hnext hend
      exact ⟨last, .tail _ hmem, hterminal⟩
    · refine ⟨r, .head _, ?_⟩
      revert hallowed howned hnext
      generalize r.status = next
      cases status <;> cases next <;> decide

theorem queued_report {row} (h : Queued row rs) (htail : tailOf row rs = some (status, version))
    (hversion : r.expectedVersion = version)
    (hallowed : allowedTransitions status r.status = some .machine) :
    enqueueMutation rs r = rs ++ [r] ∧ Queued row (rs ++ [r]) ∧
      tailOf row (rs ++ [r]) = some (r.status, version + 1) := by
  obtain ⟨launch, rfl, hlaunch⟩ := map_eq_some_iff.mp htail
  obtain ⟨hstatus, hlength⟩ := Prod.mk.inj hlaunch
  obtain ⟨hstop, hchain⟩ := h.chain launch rfl
  refine ⟨?_, ⟨fun hnone => absurd hnone (some_ne_none _), ?_⟩, ?_⟩
  · rw [enqueueMutation, if_neg]
    simp only [List.any_eq_true, not_exists, not_and]
    intro old hold hkey
    simp only [LaunchReport.sameKey, Bool.and_eq_true, decide_eq_true_eq] at hkey
    have := (chain_lt hchain hold).2
    omega
  · intro launch' hlaunch'
    cases hlaunch'
    exact ⟨hstop, chain_append hchain (hversion.trans hlength.symm) (hstatus ▸ hallowed)⟩
  · simp only [tailOf, map_some, endStatus_append, length_append,
      length_singleton, ← hlength, Nat.add_assoc]

/-- The first report of the queue is what the server accepts, and its
delivery leaves the tail as it is. -/
theorem queued_deliver {launch} (h : Queued (some launch) (r :: rs)) :
    r.expectedVersion = launch.version ∧ allowedTransitions launch.status r.status = some .machine ∧
      Queued (some (launch.moved r.status)) rs ∧
      tailOf (some (launch.moved r.status)) rs = tailOf (some launch) (r :: rs) := by
  obtain ⟨-, hversion, hallowed, hrest⟩ := h.chain launch rfl
  refine ⟨hversion, hallowed, ⟨fun hnone => absurd hnone (some_ne_none _), ?_⟩, ?_⟩
  · intro moved hmoved
    cases hmoved
    exact ⟨(machine_status hallowed).1, hrest⟩
  · simp only [tailOf, map_some, TaskLaunch.moved, endStatus, foldl_cons, length_cons]
    rw [Nat.add_assoc, Nat.add_comm 1]

theorem mem_own {X} : r ∈ own X outbox ↔ r ∈ outbox ∧ r.launchId = X := by
  simp [own]

theorem own_enqueue_other {X} (h : r.launchId ≠ X) :
    own X (enqueueMutation outbox r) = own X outbox := by
  rw [enqueueMutation]
  split
  · rfl
  · simp [own, h]

theorem own_enqueue {X} (hid : r.launchId = X) :
    own X (enqueueMutation outbox r) = enqueueMutation (own X outbox) r := by
  have hany : (own X outbox).any r.sameKey = outbox.any r.sameKey := by
    rw [own, List.any_filter]
    congr 1
    ext old
    by_cases hold : old.launchId = X
    · simp [hold]
    · have hne : ¬ X = old.launchId := fun heq => hold heq.symm
      simp [hold, LaunchReport.sameKey, hid, hne]
  rw [enqueueMutation, enqueueMutation, hany]
  split
  · rfl
  · simp [own, hid]

theorem own_drop_other {X} (h : r.launchId ≠ X) :
    own X (outbox.filter fun old => !r.sameKey old) = own X outbox := by
  simp only [own, List.filter_filter]
  refine filter_congr ?_
  intro old _
  by_cases hold : old.launchId = X
  · simp [LaunchReport.sameKey, hold, h]
  · simp [hold]

theorem own_drop_first {X} (hown : own X outbox = r :: rs)
    (hchain : Chain status version (r :: rs)) :
    own X (outbox.filter fun old => !r.sameKey old) = rs := by
  have hcomm : own X (outbox.filter fun old => !r.sameKey old) =
      (own X outbox).filter fun old => !r.sameKey old := by
    simp only [own, List.filter_filter]
    refine filter_congr ?_
    intro old _
    rw [Bool.and_comm]
  rw [hcomm, hown, filter_cons_of_neg (by simp [LaunchReport.sameKey])]
  refine filter_eq_self.mpr ?_
  intro old hold
  obtain ⟨hfirst, -, hrest⟩ := hchain
  have hlt := (chain_lt hrest hold).1
  have hne : ¬ r.expectedVersion = old.expectedVersion := by omega
  simp [LaunchReport.sameKey, hne]

def LaunchReporter.next (reporter : LaunchReporter) (launch : TaskLaunch)
    (status : TaskLaunchStatus) (reasonCode : TaskLaunchReasonCode) : LaunchReport :=
  { launchId := launch.id
    expectedVersion := reporter.expectedVersion launch
    status := status
    reasonCode := reasonCode }

theorem own_report {X} (reporter : LaunchReporter) {launch} (hid : launch.id = X)
    (status : TaskLaunchStatus) (reasonCode : TaskLaunchReasonCode) :
    own X (reporter.report launch status reasonCode).store =
      enqueueMutation (own X reporter.store) (reporter.next launch status reasonCode) :=
  own_enqueue hid

theorem own_report_other {X} (reporter : LaunchReporter) {launch} (hid : launch.id ≠ X)
    (status : TaskLaunchStatus) (reasonCode : TaskLaunchReasonCode) :
    own X (reporter.report launch status reasonCode).store = own X reporter.store :=
  own_enqueue_other hid

/-! ## What a poll does to one launch -/

/-- The variables of a pass, as far as they are about one launch. -/
structure View where
  rows : List LaunchReport
  sent : Nat
  decided : Option TaskLaunchStatus
  accepted : List TaskLaunch

def Pass.view (X : Uuid) (pass : Pass) : View :=
  { rows := own X pass.reporter.store
    sent := pass.reporter.sent X
    decided := pass.decided X
    accepted := pass.accepted.filter fun launch => launch.id = X }

def View.answer (v : View) (launch : TaskLaunch) (status : TaskLaunchStatus)
    (reasonCode : TaskLaunchReasonCode) : View :=
  { v with
    rows := enqueueMutation v.rows
      { launchId := launch.id
        expectedVersion := launch.version + v.sent
        status := status
        reasonCode := reasonCode }
    sent := v.sent + 1
    decided := some status }

section Poll

variable {X : Uuid} {launch : TaskLaunch}

theorem view_answer (hid : launch.id = X) (pass : Pass)
    (status reasonCode) : (pass.answer launch status reasonCode).view X =
      (pass.view X).answer launch status reasonCode := by
  subst hid
  simp only [Pass.view, View.answer, Pass.answer, own_report _ rfl, sent_report, if_true,
    Function.update_self]
  rfl

theorem view_answer_other (hid : launch.id ≠ X) (pass : Pass) (status reasonCode) :
    (pass.answer launch status reasonCode).view X = pass.view X := by
  have hne : ¬ X = launch.id := fun h => hid h.symm
  simp only [Pass.view, Pass.answer, own_report_other _ hid, sent_report, if_neg hne,
    Function.update_of_ne hne]

theorem view_failOrphan_other (isExecuting) (hid : launch.id ≠ X) (pass : Pass) :
    (pass.failOrphan isExecuting launch).view X = pass.view X := by
  rw [Pass.failOrphan]
  split
  · rfl
  · exact view_answer_other hid pass _ _

theorem view_offer_other (policy) (hid : launch.id ≠ X) (pass : Pass) :
    (pass.offer policy launch).view X = pass.view X := by
  simp only [Pass.offer]
  split
  · rfl
  split
  · have h := view_answer_other hid pass .accepted (policy.evaluate launch pass.active)
    simp only [Pass.view, View.mk.injEq] at h ⊢
    refine ⟨h.1, h.2.1, h.2.2.1, ?_⟩
    rw [filter_append, filter_cons_of_neg (by simp [hid]), filter_nil, append_nil]
  · exact view_answer_other hid pass _ _

theorem view_foldl {f}
    (hother : ∀ launch pass, launch.id ≠ X → (f pass launch).view X = pass.view X)
    (pending : List TaskLaunch) (h : X ∉ pending.map TaskLaunch.id) (pass : Pass) :
    (pending.foldl f pass).view X = pass.view X := by
  induction pending generalizing pass with
  | nil => rfl
  | cons first pending ih =>
    rw [map_cons, mem_cons, not_or] at h
    refine (ih h.2 _).trans (hother first pass ?_)
    exact fun heq => h.1 heq.symm

theorem view_failOrphan (isExecuting) (hid : launch.id = X) (pass : Pass) :
    (pass.failOrphan isExecuting launch).view X =
      if launch.status ∉ ownedStatuses || isExecuting X then pass.view X
      else (pass.view X).answer launch .failed .harnessExited := by
  rw [Pass.failOrphan, hid]
  split
  · rfl
  · exact view_answer hid pass _ _

/-- What a poll makes of a launch. -/
inductive Offered (launch : TaskLaunch) (v : View) : View → Prop where
  | skipped (h : launch.status = .requested → v.decided.isSome = true) : Offered launch v v
  | accepted (h : launch.status = .requested) (hnew : v.decided = none) :
      Offered launch v
        { v.answer launch .accepted .none with accepted := v.accepted ++ [launch] }
  | rejected (h : launch.status = .requested) (hnew : v.decided = none)
      (reasonCode) : Offered launch v (v.answer launch .rejected reasonCode)

theorem view_offer (policy) (hid : launch.id = X) (pass : Pass) :
    Offered launch (pass.view X) ((pass.offer policy launch).view X) := by
  have hdecided : (pass.view X).decided = pass.decided launch.id := by
    rw [hid]
    rfl
  simp only [Pass.offer]
  split
  · rename_i hskip
    refine .skipped ?_
    intro hrequested
    rw [hdecided]
    simpa [hrequested] using hskip
  · rename_i hnew
    simp only [Bool.or_eq_true, decide_eq_true_eq, not_or, not_not, Bool.not_eq_true,
      isSome_eq_false_iff, isNone_iff_eq_none] at hnew
    split
    · rename_i hreason
      rw [hreason]
      have h := view_answer hid pass .accepted .none
      have haccepted := @Offered.accepted launch (pass.view X) hnew.1 (hdecided.trans hnew.2)
      rw [← h] at haccepted
      simpa only [Pass.view, Pass.answer, filter_append, hid, decide_true,
        filter_cons_of_pos, filter_nil] using haccepted
    · rw [view_answer hid]
      exact .rejected hnew.1 (hdecided.trans hnew.2) _

/-- What a pass knows of a launch before its loops. -/
def baseView (X : Uuid) (puller : LaunchPuller) (reporter : LaunchReporter)
    (pending : List TaskLaunch) : View :=
  { rows := own X reporter.store
    sent := reporter.sent X
    decided := puller.prune pending X
    accepted := [] }

variable {puller : LaunchPuller} {reporter : LaunchReporter} {isExecuting : Uuid → Bool}
  {policy : LaunchPolicy} {pending : List TaskLaunch}

theorem view_poll_absent (h : X ∉ pending.map TaskLaunch.id) :
    (puller.poll reporter isExecuting policy pending).view X =
      baseView X puller reporter pending := by
  rw [LaunchPuller.poll, view_foldl (fun _ pass hid => view_offer_other policy hid pass) _ h]
  simp only [LaunchPuller.opened]
  cases puller.reconciled with
  | true => rfl
  | false =>
    simp only [Bool.false_eq_true, if_false]
    exact view_foldl (fun _ pass hid => view_failOrphan_other isExecuting hid pass) _ h
      { reporter := reporter, decided := puller.prune pending, active := 0, accepted := [] }

/-- **What a poll does to a launch of its page**: the first poll fails it
when it is owned and not run, then it is offered. -/
theorem view_poll (hnodup : (pending.map TaskLaunch.id).Nodup) (hmem : launch ∈ pending)
    (hid : launch.id = X) : Offered launch
      (if puller.reconciled || (launch.status ∉ ownedStatuses || isExecuting X) then
        baseView X puller reporter pending
      else (baseView X puller reporter pending).answer launch .failed .harnessExited)
      ((puller.poll reporter isExecuting policy pending).view X) := by
  obtain ⟨front, back, rfl⟩ := append_of_mem hmem
  have hapart : X ∉ front.map TaskLaunch.id ∧ X ∉ back.map TaskLaunch.id := by
    rw [map_append, map_cons, hid] at hnodup
    obtain ⟨-, hback, hdisjoint⟩ := nodup_append.mp hnodup
    refine ⟨?_, (nodup_cons.mp hback).1⟩
    intro hfront
    exact hdisjoint X hfront X (.head _) rfl
  -- only the step at the launch itself changes the view
  have hloop : ∀ (f : Pass → TaskLaunch → Pass) (pass : Pass),
      (∀ l pass, l.id ≠ X → (f pass l).view X = pass.view X) →
      (List.foldl f pass (front ++ launch :: back)).view X =
        (f (front.foldl f pass) launch).view X := by
    intro f pass hother
    rw [foldl_append, foldl_cons]
    exact view_foldl hother back hapart.2 _
  have hopened : (puller.opened reporter isExecuting (front ++ launch :: back)).view X =
      if puller.reconciled || (launch.status ∉ ownedStatuses || isExecuting X) then
        baseView X puller reporter (front ++ launch :: back)
      else (baseView X puller reporter (front ++ launch :: back)).answer launch .failed
        .harnessExited := by
    simp only [LaunchPuller.opened]
    cases puller.reconciled with
    | true => rfl
    | false =>
      simp only [Bool.false_eq_true, if_false, Bool.false_or]
      refine (hloop (Pass.failOrphan isExecuting) _
        fun _ pass h => view_failOrphan_other isExecuting h pass).trans ?_
      rw [view_failOrphan isExecuting hid,
        view_foldl (fun _ pass h => view_failOrphan_other isExecuting h pass) front hapart.1]
      rfl
  have hoffer : ∀ l pass, l.id ≠ X → (Pass.offer policy pass l).view X = pass.view X :=
    fun _ pass h => view_offer_other policy h pass
  rw [LaunchPuller.poll, hloop _ _ hoffer, ← hopened, ← view_foldl hoffer front hapart.1]
  exact view_offer policy hid _

end Poll

end StudioOS.Daemon
