import StudioOS.Daemon.Chain

/-!
# Daemon — Reports

The reports of a launch nobody else changes, over every run of processes. What
a process has of the launch, in a page, an acceptance or a task, is on the
launch's tail, so its next report extends the chain.
-/

namespace StudioOS.Daemon

open List Option Runs
open Launches (TaskLaunchStatus TaskLaunchReasonCode TaskLaunchActor allowedTransitions)

/-! ## What a process knows of a launch -/

/-- The last status that a task in the phase has reported. -/
def Phase.reported : Phase → Option TaskLaunchStatus
  | .resolving => some .accepted
  | .checking => some .accepted
  | .preparing => some .preparing
  | .rechecking => some .preparing
  | .readying => some .preparing
  | .issuing => some .preparing
  | .issued => some .preparing
  | .waiting => some .running
  | .unwinding => none

section Knows

variable {X : Uuid} {p q : Process} {tail : Option (TaskLaunchStatus × Nat)}

/-- What a process has of the launch `X` is on its tail. -/
structure ProcessKnows (X : Uuid) (tail : Option (TaskLaunchStatus × Nat)) (p : Process) :
    Prop where
  oneTask : p.OneTask
  stopped : X ∉ p.stopped
  fresh : p.puller.reconciled = false →
    p.sent X = 0 ∧ p.tasks = [] ∧ p.heartbeat.acceptedIds = []
  pulled : ∀ pending, p.heartbeat = .pulled pending →
    (pending.map TaskLaunch.id).Nodup ∧
    (∀ launch ∈ pending, launch.id = X → p.sent X = 0 →
      tail = some (launch.status, launch.version)) ∧
    (p.puller.reconciled = false → X ∉ pending.map TaskLaunch.id →
      ∀ last, tail = some last → last.1 ∉ ownedStatuses)
  accepted : ∀ launches, p.heartbeat = .accepted launches →
    ∀ launch ∈ launches, launch.id = X →
      (∀ task ∈ p.tasks, task.launch.id ≠ X) ∧
        tail = some (.accepted, launch.version + p.sent X)
  task : ∀ task ∈ p.tasks, task.launch.id = X →
    ∃ status, task.phase.reported = some status ∧
      tail = some (status, task.launch.version + p.sent X)
  covered : p.puller.reconciled = true → ∀ last, tail = some last → last.1 ∈ ownedStatuses →
    (∃ task ∈ p.tasks, task.launch.id = X) ∨ X ∈ p.heartbeat.acceptedIds

/-- What the run of a guarded step keeps of the launch `X`. -/
structure Linked (X : Uuid) (s : State) : Prop where
  oneRow : s.server.OneRow
  queued : Queued (s.server.get? X) (own X s.outbox)
  process : ∀ p, s.process = some p →
    ProcessKnows X (tailOf (s.server.get? X) (own X s.outbox)) p

theorem linked_initial : Linked X State.initial where
  oneRow := nodup_nil
  queued := ⟨fun _ => rfl, fun launch h => absurd h (by simp [State.initial, Server.get?])⟩
  process p hp := absurd hp (by simp [State.initial])

theorem processKnows_fresh : ProcessKnows X tail .fresh where
  oneTask := nodup_nil
  stopped := not_mem_nil
  fresh _ := ⟨rfl, rfl, rfl⟩
  pulled _ h := by cases h
  accepted _ h := by cases h
  task _ h := absurd h not_mem_nil
  covered h := by cases h

theorem ProcessKnows.free (h : ProcessKnows X tail p) {version}
    (htail : tail = some (.requested, version)) : ∀ task ∈ p.tasks, task.launch.id ≠ X := by
  intro task hmem hid
  obtain ⟨status, hphase, hon⟩ := h.task task hmem hid
  have hstatus := (Prod.mk.inj (some.inj (htail.symm.trans hon))).1
  rw [← hstatus] at hphase
  revert hphase
  cases task.phase <;> simp [Phase.reported]

theorem ProcessKnows.goOn (h : ProcessKnows X tail p) {task} (hmem : task ∈ p.tasks)
    (hid : task.launch.id = X) {tail'} (hone : q.OneTask) (hstopped : X ∉ q.stopped)
    (hpuller : q.puller = p.puller) (hbeat : q.heartbeat = p.heartbeat)
    (hsent : q.sent X = 0 → tail' = tail ∧ p.sent X = 0)
    (htask : ∀ b ∈ q.tasks, b.launch.id = X → ∃ status, b.phase.reported = some status ∧
      tail' = some (status, b.launch.version + q.sent X))
    (hcovered : ∀ last, tail' = some last → last.1 ∈ ownedStatuses →
      ∃ b ∈ q.tasks, b.launch.id = X) : ProcessKnows X tail' q := by
  have hreconciled : q.puller.reconciled ≠ false := by
    rw [hpuller]
    intro hfalse
    rw [(h.fresh hfalse).2.1] at hmem
    cases hmem
  refine ⟨hone, hstopped, fun hfalse => absurd hfalse hreconciled, ?_, ?_, htask, ?_⟩
  · intro pending hpulled
    rw [hbeat] at hpulled
    obtain ⟨hnodup, hshown, -⟩ := h.pulled pending hpulled
    refine ⟨hnodup, ?_, fun hfalse => absurd hfalse hreconciled⟩
    intro launch hlaunch hlid hzero
    obtain ⟨rfl, hp⟩ := hsent hzero
    exact hshown launch hlaunch hlid hp
  · intro launches haccepted launch hlaunch hlid
    rw [hbeat] at haccepted
    exact absurd hid ((h.accepted launches haccepted launch hlaunch hlid).1 task hmem)
  · intro _ last hlast howned
    exact .inl (hcovered last hlast howned)

theorem ProcessKnows.congr (h : ProcessKnows X tail p) (hone : q.OneTask)
    (hstopped : X ∉ q.stopped) (hpuller : q.puller = p.puller)
    (hbeat : q.heartbeat = p.heartbeat) (hsent : q.sent X = p.sent X)
    (htasks : ∀ task, task.launch.id = X → (task ∈ q.tasks ↔ task ∈ p.tasks))
    (hnil : p.tasks = [] → q.tasks = []) : ProcessKnows X tail q := by
  refine ⟨hone, hstopped, ?_, ?_, ?_, ?_, ?_⟩
  · intro hfalse
    rw [hpuller] at hfalse
    obtain ⟨hzero, htasks, hbeat'⟩ := h.fresh hfalse
    exact ⟨hsent.trans hzero, hnil htasks, hbeat ▸ hbeat'⟩
  · rw [hbeat, hsent, hpuller]
    exact h.pulled
  · intro launches haccepted launch hlaunch hlid
    rw [hbeat] at haccepted
    obtain ⟨hfree, htail⟩ := h.accepted launches haccepted launch hlaunch hlid
    rw [hsent]
    refine ⟨?_, htail⟩
    intro task hmem hid
    exact hfree task ((htasks task hid).mp hmem) hid
  · intro task hmem hid
    rw [hsent]
    exact h.task task ((htasks task hid).mp hmem) hid
  · intro hreconciled last hlast howned
    rw [hpuller] at hreconciled
    rw [hbeat]
    rcases h.covered hreconciled last hlast howned with ⟨task, hmem, hid⟩ | haccepted
    · exact .inl ⟨task, (htasks task hid).mpr hmem, hid⟩
    · exact .inr haccepted

end Knows

/-! ## The steps of a process -/

section Steps

variable {X : Uuid} {s t : State} {p : Process} {row : Option TaskLaunch} {id : Uuid}
  {phase : Phase}

theorem queued_answer {v : View} {launch : TaskLaunch} {status next : TaskLaunchStatus}
    (h : Queued row v.rows) (htail : tailOf row v.rows = some (status, launch.version + v.sent))
    (hallowed : allowedTransitions status next = some .machine)
    (reasonCode : TaskLaunchReasonCode) :
    (∃ r, (v.answer launch next reasonCode).rows = v.rows ++ [r]) ∧
      Queued row (v.answer launch next reasonCode).rows ∧
      tailOf row (v.answer launch next reasonCode).rows =
        some (next, launch.version + (v.sent + 1)) := by
  obtain ⟨hrows, hqueued, htail'⟩ := @queued_report _ _ v.rows
    { launchId := launch.id, expectedVersion := launch.version + v.sent, status := next,
      reasonCode := reasonCode } row h htail rfl hallowed
  have heq : (v.answer launch next reasonCode).rows = v.rows ++ _ := hrows
  rw [heq]
  exact ⟨⟨_, rfl⟩, hqueued, htail'⟩

theorem allowed_failed {status} (h : status ∈ ownedStatuses) :
    allowedTransitions status .failed = some .machine := by
  revert h
  cases status <;> decide

/-- The reports a step adds to the queue of the launch are those it counts. -/
def Appends (X : Uuid) (before after : Outbox) (sent sent' : Uuid → Nat) : Prop :=
  ∃ new, own X after = own X before ++ new ∧ sent' X = sent X + new.length

/-- The process after the poll. -/
def decidedProcess (p : Process) (pass : Pass) : Process :=
  { p with
    puller := { decided := pass.decided, reconciled := true }
    heartbeat := .accepted pass.accepted
    sent := pass.reporter.sent }

theorem ProcessKnows.decided {pass v} (h : ProcessKnows X (tailOf row (own X s.outbox)) p)
    (hview : pass.view X = v)
    (htask : ∀ task ∈ p.tasks, task.launch.id = X → ∃ status, task.phase.reported = some status ∧
      tailOf row v.rows = some (status, task.launch.version + v.sent))
    (haccepted : ∀ launch ∈ v.accepted, (∀ task ∈ p.tasks, task.launch.id ≠ X) ∧
      tailOf row v.rows = some (.accepted, launch.version + v.sent))
    (hcovered : ∀ last, tailOf row v.rows = some last → last.1 ∈ ownedStatuses →
      (∃ task ∈ p.tasks, task.launch.id = X) ∨ v.accepted ≠ []) :
    ProcessKnows X (tailOf row v.rows) (decidedProcess p pass) := by
  subst hview
  refine ⟨h.oneTask, h.stopped, ?_, ?_, ?_, htask, ?_⟩
  · intro hfalse
    cases hfalse
  · intro _ hbeat
    cases hbeat
  · intro launches hlaunches launch hmem hid
    cases hlaunches
    exact haccepted launch (mem_filter.mpr ⟨hmem, by simpa using hid⟩)
  intro _ last hlast howned
  rcases hcovered last hlast howned with htasks | hne
  · exact .inl htasks
  · obtain ⟨launch, hmem⟩ := exists_mem_of_ne_nil _ hne
    obtain ⟨hin, hid⟩ := mem_filter.mp hmem
    exact .inr (List.mem_map.mpr ⟨launch, hin, by simpa using hid⟩)

/-- **A poll**: it answers a launch of its page with the next report of its
chain, if no process but this one has reported on it. -/
theorem decide_linked {pending policy} (hq : Queued row (own X s.outbox))
    (h : ProcessKnows X (tailOf row (own X s.outbox)) p) (hpulled : p.heartbeat = .pulled pending)
    (hnew : ∀ launch ∈ pending, launch.id = X → launch.status = .requested →
      p.puller.prune pending X = none → p.sent X = 0) {pass}
    (hpass : p.puller.poll (s.reporter p) p.owns policy pending = pass) :
    Appends X s.outbox pass.reporter.store p.sent pass.reporter.sent ∧
      Queued row (own X pass.reporter.store) ∧
      ProcessKnows X (tailOf row (own X pass.reporter.store)) (decidedProcess p pass) := by
  obtain ⟨hnodup, hshown, hmissed⟩ := h.pulled pending hpulled
  have hbeat : X ∉ p.heartbeat.acceptedIds := by
    rw [hpulled]
    exact not_mem_nil
  have hrows : own X pass.reporter.store = (pass.view X).rows := rfl
  have hsent : pass.reporter.sent X = (pass.view X).sent := rfl
  have hcovered : p.puller.reconciled = true → ∀ last, tailOf row (own X s.outbox) = some last →
      last.1 ∈ ownedStatuses → ∃ task ∈ p.tasks, task.launch.id = X := by
    intro hreconciled last hlast howned
    rcases h.covered hreconciled last hlast howned with htask | haccepted
    · exact htask
    · exact absurd haccepted hbeat
  simp only [Appends, hrows, hsent]
  by_cases hmem : X ∈ pending.map TaskLaunch.id
  · obtain ⟨launch, hlaunch, hid⟩ := List.mem_map.mp hmem
    have hoffered := @view_poll X launch p.puller (s.reporter p) p.owns policy pending hnodup
      hlaunch hid
    rw [hpass] at hoffered
    generalize hview : pass.view X = v at hoffered ⊢
    by_cases hquiet : (p.puller.reconciled ||
        (launch.status ∉ ownedStatuses || p.owns X)) = true
    · rw [if_pos hquiet] at hoffered
      cases hoffered with
      | skipped hskip =>
        refine ⟨⟨[], (append_nil _).symm, rfl⟩, hq, ?_⟩
        refine h.decided hview h.task (fun _ hin => absurd hin not_mem_nil) ?_
        intro last hlast howned
        cases hreconciled : p.puller.reconciled with
        | true => exact .inl (hcovered hreconciled last hlast howned)
        | false =>
          obtain ⟨hzero, hnil, -⟩ := h.fresh hreconciled
          have htail := hshown launch hlaunch hid hzero
          have hlast' := htail.symm.trans hlast
          cases hlast'
          simp only [hreconciled, howned, Bool.false_or, not_true_eq_false, decide_false,
            owns_iff, hnil] at hquiet
          obtain ⟨task, hin, -⟩ := hquiet
          cases hin
      | accepted hstatus hdecided =>
        have hzero := hnew launch hlaunch hid hstatus hdecided
        have htail := hshown launch hlaunch hid hzero
        rw [hstatus] at htail
        have hsent : (baseView X p.puller (s.reporter p) pending).sent = 0 := hzero
        obtain ⟨⟨r, happ⟩, hqueued, htail'⟩ := @queued_answer row
          (baseView X p.puller (s.reporter p) pending) launch .requested .accepted hq
          (by rw [hsent]; exact htail) rfl .none
        have hfree := h.free htail
        refine ⟨⟨[r], happ, rfl⟩, hqueued, ?_⟩
        refine h.decided hview (fun task hin htid => absurd htid (hfree task hin)) ?_ ?_
        · intro other hin
          rw [mem_singleton.mp hin]
          exact ⟨hfree, htail'⟩
        · intro _ _ _
          exact .inr (cons_ne_nil _ _)
      | rejected hstatus hdecided reasonCode =>
        have hzero := hnew launch hlaunch hid hstatus hdecided
        have htail := hshown launch hlaunch hid hzero
        rw [hstatus] at htail
        have hsent : (baseView X p.puller (s.reporter p) pending).sent = 0 := hzero
        obtain ⟨⟨r, happ⟩, hqueued, htail'⟩ := @queued_answer row
          (baseView X p.puller (s.reporter p) pending) launch .requested .rejected hq
          (by rw [hsent]; exact htail) rfl reasonCode
        have hfree := h.free htail
        refine ⟨⟨[r], happ, rfl⟩, hqueued, ?_⟩
        refine h.decided hview (fun task hin htid => absurd htid (hfree task hin))
          (fun _ hin => absurd hin not_mem_nil) ?_
        intro last hlast howned
        rw [← some.inj (htail'.symm.trans hlast)] at howned
        exact absurd howned (by decide : TaskLaunchStatus.rejected ∉ ownedStatuses)
    · rw [if_neg hquiet] at hoffered
      simp only [Bool.or_eq_true, decide_eq_true_eq, not_or, not_not, Bool.not_eq_true]
        at hquiet
      obtain ⟨hreconciled, howned, hidle⟩ := hquiet
      obtain ⟨hzero, hnil, -⟩ := h.fresh hreconciled
      have htail := hshown launch hlaunch hid hzero
      have hsent : (baseView X p.puller (s.reporter p) pending).sent = 0 := hzero
      obtain ⟨⟨r, happ⟩, hqueued, htail'⟩ := @queued_answer row
        (baseView X p.puller (s.reporter p) pending) launch launch.status .failed hq
        (by rw [hsent]; exact htail) (allowed_failed howned) .harnessExited
      cases hoffered with
      | skipped hskip =>
        refine ⟨⟨[r], happ, rfl⟩, hqueued, ?_⟩
        refine h.decided hview ?_ (fun _ hin => absurd hin not_mem_nil) ?_
        · intro task hin
          rw [hnil] at hin
          cases hin
        · intro last hlast hlive
          rw [← some.inj (htail'.symm.trans hlast)] at hlive
          exact absurd hlive (by decide : TaskLaunchStatus.failed ∉ ownedStatuses)
      | accepted hstatus hdecided | rejected hstatus hdecided =>
        rw [hstatus] at howned
        exact absurd howned (by decide)
  · have hview := @view_poll_absent X p.puller (s.reporter p) p.owns policy pending hmem
    rw [hpass] at hview
    rw [hview]
    refine ⟨⟨[], (append_nil _).symm, rfl⟩, hq, ?_⟩
    refine h.decided hview h.task (fun _ hin => absurd hin not_mem_nil) ?_
    intro last hlast howned
    cases hreconciled : p.puller.reconciled with
    | true => exact .inl (hcovered hreconciled last hlast howned)
    | false => exact absurd howned (hmissed hreconciled hmem last hlast)

theorem ProcessKnows.submit {tail launches} (h : ProcessKnows X tail p)
    (haccepted : p.heartbeat = .accepted launches) :
    ProcessKnows X tail { launches.foldl Process.submit p with heartbeat := .idle } := by
  obtain ⟨hpuller, hsent, hstopped, -⟩ := @submitAll_rest p launches
  have hids : p.heartbeat.acceptedIds = launches.map TaskLaunch.id := by
    rw [haccepted]
    rfl
  refine ⟨h.oneTask.submitAll launches, hstopped ▸ h.stopped, ?_, ?_, ?_, ?_, ?_⟩
  · intro hfalse
    simp only [hpuller] at hfalse
    obtain ⟨hzero, hnil, hnone⟩ := h.fresh hfalse
    rw [hids, map_eq_nil_iff] at hnone
    subst hnone
    exact ⟨hzero, hnil, rfl⟩
  · intro _ hbeat
    cases hbeat
  · intro _ hbeat
    cases hbeat
  · intro task hmem hid
    simp only [hsent]
    rcases mem_submitAll hmem with hold | ⟨hphase, hlaunch, -⟩
    · exact h.task task hold hid
    · rw [hphase]
      exact ⟨.accepted, rfl, (h.accepted launches haccepted _ hlaunch hid).2⟩
  · intro hreconciled last hlast howned
    simp only [hpuller] at hreconciled
    rcases h.covered hreconciled last hlast howned with ⟨task, hmem, hid⟩ | hin
    · exact .inl ⟨task, subset_submitAll hmem, hid⟩
    · rw [hids] at hin
      obtain ⟨launch, hlaunch, rfl⟩ := List.mem_map.mp hin
      exact .inl (submitAll_owns hlaunch h.stopped)

theorem report_linked {reporter : LaunchReporter} {launch : TaskLaunch}
    {status next : TaskLaunchStatus} (hq : Queued row (own X reporter.store))
    (hid : launch.id = X) (htail : tailOf row (own X reporter.store) =
      some (status, launch.version + reporter.sent X))
    (hallowed : allowedTransitions status next = some .machine)
    (reasonCode : TaskLaunchReasonCode) :
    (∃ r, own X (reporter.report launch next reasonCode).store = own X reporter.store ++ [r]) ∧
      Queued row (own X (reporter.report launch next reasonCode).store) ∧
      tailOf row (own X (reporter.report launch next reasonCode).store) =
        some (next, launch.version + (reporter.report launch next reasonCode).sent X) ∧
      (reporter.report launch next reasonCode).sent X = reporter.sent X + 1 := by
  have hsent : (reporter.report launch next reasonCode).sent X = reporter.sent X + 1 := by
    rw [sent_report, if_pos hid.symm]
  have hversion : (reporter.next launch next reasonCode).expectedVersion =
      launch.version + reporter.sent X := by
    rw [← hid]
    rfl
  obtain ⟨happ, hqueued, htail'⟩ := queued_report hq htail hversion hallowed
  rw [own_report reporter hid, hsent, happ]
  exact ⟨⟨_, rfl⟩, hqueued, htail', rfl⟩

theorem Next.reported {server a b} (h : Next server id a b) : b.reported = a.reported := by
  cases h <;> rfl

theorem setPhase_other (hid : id ≠ X) (phase) (task)
    (htask : task.launch.id = X) : task ∈ (p.setPhase id phase).tasks ↔ task ∈ p.tasks := by
  rw [mem_setPhase]
  constructor
  · rintro (⟨-, hmem⟩ | ⟨old, -, hold, rfl⟩)
    · exact hmem
    · exact absurd (hold.symm.trans htask) hid
  · intro hmem
    exact .inl ⟨fun h => hid (h.symm.trans htask), hmem⟩

theorem dropTask_other (hid : id ≠ X) (task) (htask : task.launch.id = X) :
    task ∈ (p.dropTask id).tasks ↔ task ∈ p.tasks := by
  rw [mem_dropTask]
  constructor
  · exact fun h => h.1
  · intro hmem
    exact ⟨hmem, fun h => hid (h.symm.trans htask)⟩

theorem setPhase_nil (h : p.tasks = []) : (p.setPhase id phase).tasks = [] := by
  simp [Process.setPhase, h]

theorem dropTask_nil (h : p.tasks = []) : (p.dropTask id).tasks = [] := by
  simp [Process.dropTask, h]

theorem setPhase_self {task b} (hone : p.OneTask) (hmem : task ∈ p.tasks)
    (hb : b ∈ (p.setPhase task.launch.id phase).tasks) (hid : b.launch.id = task.launch.id) :
    b = { task with phase := phase } := by
  rcases mem_setPhase.mp hb with ⟨hne, -⟩ | ⟨old, hold, holdid, rfl⟩
  · exact absurd hid hne
  · rw [hone.unique hold hmem holdid]

theorem mem_setPhase_self {task} (hmem : task ∈ p.tasks) :
    { task with phase := phase } ∈ (p.setPhase task.launch.id phase).tasks :=
  mem_setPhase.mpr (.inr ⟨task, hmem, rfl, rfl⟩)

/-- The step of a task keeps what the process knows. -/
structure Keeps (X : Uuid) (row : Option TaskLaunch) (s t : State) (p : Process) : Prop where
  server : t.server = s.server
  queued : Queued row (own X t.outbox)
  process : ∃ q, t.process = some q ∧ Appends X s.outbox t.outbox p.sent q.sent ∧
    ProcessKnows X (tailOf row (own X t.outbox)) q

theorem appends_refl {outbox sent} : Appends X outbox outbox sent sent :=
  ⟨[], (append_nil _).symm, rfl⟩

theorem Ran.keeps_other {task} (h : Ran s p task t) (hid : task.launch.id ≠ X)
    (hstops : s.server.stops X = false) (hq : Queued row (own X s.outbox))
    (hk : ProcessKnows X (tailOf row (own X s.outbox)) p) : Keeps X row s t p := by
  have hown : ∀ (reporter : LaunchReporter) status reasonCode,
      own X (reporter.report task.launch status reasonCode).store = own X reporter.store :=
    fun reporter status reasonCode => own_report_other reporter hid status reasonCode
  have hsent : ∀ (reporter : LaunchReporter) status reasonCode,
      (reporter.report task.launch status reasonCode).sent X = reporter.sent X := by
    intro reporter status reasonCode
    rw [sent_report, if_neg fun h => hid h.symm]
  cases h with
  | ended stopped hsub hsup hwhy =>
    refine ⟨rfl, hq, _, rfl, appends_refl, ?_⟩
    refine hk.congr hk.oneTask.dropTask ?_ rfl rfl rfl (dropTask_other hid) dropTask_nil
    intro hin
    rcases hsub X hin with hold | hstop
    · exact hk.stopped hold
    · rw [hstops] at hstop
      cases hstop
  | failed reasonCode hphase =>
    have hrows := hown (s.reporter p) .failed reasonCode
    have hcount := hsent (s.reporter p) .failed reasonCode
    refine ⟨rfl, hrows.symm ▸ hq, _, rfl, ⟨[], ?_, hcount⟩, ?_⟩
    · exact hrows.trans (append_nil _).symm
    · exact hrows.symm ▸ hk.congr hk.oneTask.dropTask hk.stopped rfl rfl hcount
        (dropTask_other hid) dropTask_nil
  | moved phase hnext =>
    refine ⟨rfl, hq, _, rfl, appends_refl, ?_⟩
    exact hk.congr (hk.oneTask.setPhase phase) hk.stopped rfl rfl rfl (setPhase_other hid phase)
      setPhase_nil
  | prepares hphase =>
    have hrows := hown (s.reporter p) .preparing .none
    have hcount := hsent (s.reporter p) .preparing .none
    refine ⟨rfl, hrows.symm ▸ hq, _, rfl, ⟨[], ?_, hcount⟩, ?_⟩
    · exact hrows.trans (append_nil _).symm
    · exact hrows.symm ▸ hk.congr (hk.oneTask.setPhase _) hk.stopped rfl rfl hcount
        (setPhase_other hid _) setPhase_nil
  | starts hphase =>
    have hrows := hown (s.reporter p) .running .none
    have hcount := hsent (s.reporter p) .running .none
    refine ⟨rfl, hrows.symm ▸ hq, _, rfl, ⟨[], ?_, hcount⟩, ?_⟩
    · exact hrows.trans (append_nil _).symm
    · exact hrows.symm ▸ hk.congr (hk.oneTask.setPhase _) hk.stopped rfl rfl hcount
        (setPhase_other hid _) setPhase_nil
  | unstartable hphase reasonCode =>
    have hrows := (hown ((s.reporter p).report task.launch .running .none) .failed
      reasonCode).trans (hown (s.reporter p) .running .none)
    have hcount := (hsent ((s.reporter p).report task.launch .running .none) .failed
      reasonCode).trans (hsent (s.reporter p) .running .none)
    refine ⟨rfl, hrows.symm ▸ hq, _, rfl, ⟨[], ?_, hcount⟩, ?_⟩
    · exact hrows.trans (append_nil _).symm
    · exact hrows.symm ▸ hk.congr hk.oneTask.dropTask hk.stopped rfl rfl hcount
        (dropTask_other hid) dropTask_nil
  | finished hphase status hstatus reasonCode =>
    have hrows := hown (s.reporter p) status reasonCode
    have hcount := hsent (s.reporter p) status reasonCode
    refine ⟨rfl, hrows.symm ▸ hq, _, rfl, ⟨[], ?_, hcount⟩, ?_⟩
    · exact hrows.trans (append_nil _).symm
    · exact hrows.symm ▸ hk.congr hk.oneTask.dropTask hk.stopped rfl rfl hcount
        (dropTask_other hid) dropTask_nil

theorem reported_owned {status} (h : phase.reported = some status) : status ∈ ownedStatuses := by
  revert h
  cases phase <;> simp only [Phase.reported, Option.some.injEq, reduceCtorEq, false_imp_iff] <;>
    rintro rfl <;> decide

theorem ProcessKnows.ends {tail} (h : ProcessKnows X tail p) {task} (hmem : task ∈ p.tasks)
    (hid : task.launch.id = X) {last} (hlast : last.1 ∉ ownedStatuses) {sent} (hsent : 0 < sent X) :
    ProcessKnows X (some last) { p.dropTask task.launch.id with sent := sent } := by
  have hnone : ∀ b ∈ (p.dropTask task.launch.id).tasks, b.launch.id ≠ X := by
    intro b hb
    rw [← hid]
    exact (mem_dropTask.mp hb).2
  refine h.goOn hmem hid h.oneTask.dropTask h.stopped rfl rfl ?_ ?_ ?_
  · intro hzero
    have hpos : 0 < sent X := hsent
    exact absurd hzero (Nat.ne_of_gt hpos)
  · intro b hb hbid
    exact absurd hbid (hnone b hb)
  · intro last' heq howned
    rw [← some.inj heq] at howned
    exact absurd howned hlast

theorem ProcessKnows.reports {tail} (h : ProcessKnows X tail p) {task} (hmem : task ∈ p.tasks)
    (hid : task.launch.id = X) {phase status} (hphase : phase.reported = some status) {sent}
    (hsent : 0 < sent X) {alive} :
    ProcessKnows X (some (status, task.launch.version + sent X))
      { p.setPhase task.launch.id phase with sent := sent, alive := alive } := by
  refine h.goOn hmem hid (h.oneTask.setPhase phase) h.stopped rfl rfl ?_ ?_ ?_
  · intro hzero
    have hpos : 0 < sent X := hsent
    exact absurd hzero (Nat.ne_of_gt hpos)
  · intro b hb hbid
    rw [setPhase_self h.oneTask hmem hb (hbid.trans hid.symm)]
    exact ⟨status, hphase, rfl⟩
  · intro _ _ _
    exact ⟨_, mem_setPhase_self hmem, hid⟩

theorem Ran.keeps_self {task} (h : Ran s p task t) (hmem : task ∈ p.tasks)
    (hid : task.launch.id = X) (hstops : s.server.stops X = false)
    (hq : Queued row (own X s.outbox)) (hk : ProcessKnows X (tailOf row (own X s.outbox)) p) :
    Keeps X row s t p := by
  obtain ⟨status, hreported, htail⟩ := hk.task task hmem hid
  have hq' : Queued row (own X (s.reporter p).store) := hq
  cases h with
  | ended stopped hsub hsup hwhy =>
    rcases hwhy with hunwinding | hstopped
    · rw [hunwinding] at hreported
      cases hreported
    · rw [hid] at hstopped
      rcases hsub X hstopped with hold | hstop
      · exact absurd hold hk.stopped
      · rw [hstops] at hstop
        cases hstop
  | failed reasonCode hphase =>
    obtain ⟨⟨r, happ⟩, hqueued, htail', hcount⟩ := @report_linked X row (s.reporter p)
      task.launch status .failed hq' hid htail (allowed_failed (reported_owned hreported))
      reasonCode
    refine ⟨rfl, hqueued, _, rfl, ⟨[r], happ, hcount⟩, ?_⟩
    refine htail' ▸ hk.ends hmem hid (by decide : TaskLaunchStatus.failed ∉ ownedStatuses) ?_
    exact Nat.lt_of_lt_of_eq (Nat.succ_pos _) hcount.symm
  | moved phase hnext =>
    refine ⟨rfl, hq, _, rfl, appends_refl, ?_⟩
    refine hk.goOn hmem hid (hk.oneTask.setPhase phase) hk.stopped rfl rfl
      (fun hzero => ⟨rfl, hzero⟩) ?_ (fun _ _ _ => ⟨_, mem_setPhase_self hmem, hid⟩)
    intro b hb hbid
    rw [setPhase_self hk.oneTask hmem hb (hbid.trans hid.symm)]
    exact ⟨status, hnext.reported.trans hreported, htail⟩
  | prepares hphase =>
    rw [hphase] at hreported
    cases hreported
    obtain ⟨⟨r, happ⟩, hqueued, htail', hcount⟩ := @report_linked X row (s.reporter p)
      task.launch .accepted .preparing hq' hid htail rfl .none
    refine ⟨rfl, hqueued, _, rfl, ⟨[r], happ, hcount⟩, ?_⟩
    refine htail' ▸ @ProcessKnows.reports X p _ hk task hmem hid .preparing .preparing rfl _ ?_ _
    exact Nat.lt_of_lt_of_eq (Nat.succ_pos _) hcount.symm
  | starts hphase =>
    rw [hphase] at hreported
    cases hreported
    obtain ⟨⟨r, happ⟩, hqueued, htail', hcount⟩ := @report_linked X row (s.reporter p)
      task.launch .preparing .running hq' hid htail rfl .none
    refine ⟨rfl, hqueued, _, rfl, ⟨[r], happ, hcount⟩, ?_⟩
    refine htail' ▸ @ProcessKnows.reports X p _ hk task hmem hid .waiting .running rfl _ ?_ _
    exact Nat.lt_of_lt_of_eq (Nat.succ_pos _) hcount.symm
  | unstartable hphase reasonCode =>
    rw [hphase] at hreported
    cases hreported
    obtain ⟨⟨r, happ⟩, hqueued, htail', hcount⟩ := @report_linked X row (s.reporter p)
      task.launch .preparing .running hq' hid htail rfl .none
    obtain ⟨⟨r', happ'⟩, hqueued', htail'', hcount'⟩ := @report_linked X row
      ((s.reporter p).report task.launch .running .none) task.launch .running .failed hqueued
      hid htail' rfl reasonCode
    refine ⟨rfl, hqueued', _, rfl, ⟨[r, r'], ?_, ?_⟩, ?_⟩
    · refine happ'.trans ?_
      rw [happ, append_assoc]
      rfl
    · exact hcount'.trans (congrArg (· + 1) hcount)
    · refine htail'' ▸ hk.ends hmem hid (by decide : TaskLaunchStatus.failed ∉ ownedStatuses) ?_
      exact Nat.lt_of_lt_of_eq (Nat.succ_pos _) hcount'.symm
  | finished hphase last hlast reasonCode =>
    rw [hphase] at hreported
    cases hreported
    have hallowed : allowedTransitions .running last = some .machine ∧ last ∉ ownedStatuses := by
      rcases hlast with rfl | rfl <;> decide
    obtain ⟨⟨r, happ⟩, hqueued, htail', hcount⟩ := @report_linked X row (s.reporter p)
      task.launch .running last hq' hid htail hallowed.1 reasonCode
    refine ⟨rfl, hqueued, _, rfl, ⟨[r], happ, hcount⟩, ?_⟩
    refine htail' ▸ hk.ends hmem hid hallowed.2 ?_
    exact Nat.lt_of_lt_of_eq (Nat.succ_pos _) hcount.symm

end Steps

/-! ## Every run -/

/-- Nobody but the machine changes the launch. -/
def leavesAlone (X : Uuid) : Act → Bool
  | .cancel id => id ≠ X
  | .expire id => id ≠ X
  | .pull overdue => X ∉ overdue
  | _ => true

/-- The reports of the launch are sent in order and answered, and a process takes it up only where
its queue is delivered: no report of a launch it has not reported on is queued, and its first pull
shows the launch if the machine owns it. -/
def takesUp (X : Uuid) (s : State) : Act → Bool
  | .send id version delivery =>
    id ≠ X ||
      (delivery = .answered && (own X s.outbox).head?.any fun r => r.expectedVersion = version)
  | .pull overdue =>
    match s.process with
    | none => true
    | some p =>
      p.sent X ≠ 0 ||
        if X ∈ (s.server.pull overdue).2.map TaskLaunch.id then (own X s.outbox).isEmpty
        else
          p.puller.reconciled ||
            (tailOf (s.server.get? X) (own X s.outbox)).all fun last => last.1 ∉ ownedStatuses
  | .decide _ =>
    match s.process with
    | none => true
    | some p =>
      match p.heartbeat with
      | .pulled pending =>
        pending.all fun launch =>
          launch.id ≠ X || launch.status ≠ .requested ||
            (p.puller.prune pending X).isSome || p.sent X = 0
      | _ => true
  | _ => true

def Alone (X : Uuid) (_ : State) (a : Act) : Prop := leavesAlone X a = true

def InChain (X : Uuid) (s : State) (a : Act) : Prop := (leavesAlone X a && takesUp X s a) = true

instance (X : Uuid) (s : State) (a : Act) : Decidable (Alone X s a) :=
  inferInstanceAs (Decidable (_ = true))

instance (X : Uuid) (s : State) (a : Act) : Decidable (InChain X s a) :=
  inferInstanceAs (Decidable (_ = true))

/-- **One coherent step** for the launch. -/
structure Coherent (X : Uuid) (s : State) (a : Act) (t : State) : Prop where
  /-- A report that reaches the server has the version the server has,
  and is an allowed transition: the server commits it. -/
  delivered : ∀ version delivery report, a = .send X version delivery → delivery ≠ .refused →
    s.outbox.find? (fun r => r.launchId = X && r.expectedVersion = version) = some report →
    ∃ server, s.server.report report = .ok server
  /-- Every report the process counts is queued. -/
  kept : ∀ p q, s.process = some p → t.process = some q →
    (∀ id version delivery, a ≠ .send id version delivery) →
    Appends X s.outbox t.outbox p.sent q.sent
  /-- An owned launch that no task runs has its terminal report queued. -/
  closed : ∀ p, t.process = some p → p.puller.reconciled = true →
    ∀ row, t.server.get? X = some row → row.status ∈ ownedStatuses →
      p.owns X = true ∨ X ∈ p.heartbeat.acceptedIds ∨
        ∃ report ∈ own X t.outbox, report.status.isTerminal = true

section Run

variable {X : Uuid} {s t : State} {a : Act}

theorem Linked.stops (h : Linked X s) : s.server.stops X = false := by
  rw [Server.stops, Option.any_eq_false]
  intro row hrow
  have hrow' := (h.queued.chain row hrow).1
  simpa using hrow'

theorem Linked.server (h : Linked X s) {server} (hone : server.OneRow)
    (hget : server.get? X = s.server.get? X) : Linked X { s with server := server } where
  oneRow := hone
  queued := by
    simp only [hget]
    exact h.queued
  process := by
    simp only [hget]
    exact h.process

theorem get?_close {server server' : Server} {id : Uuid} {status : TaskLaunchStatus}
    (h : server.close id status = some server') (hid : id ≠ X) :
    server'.get? X = server.get? X := by
  obtain ⟨row, -, -, rfl⟩ := close_some h
  rw [get?_move, if_neg fun heq => hid heq.symm]

theorem get?_pull (server : Server) {overdue} (hid : X ∉ overdue) :
    (server.pull overdue).1.get? X = server.get? X := by
  simp only [Server.pull]
  generalize hids : List.filter _ (List.map TaskLaunch.id _) = ids
  have hout : X ∉ ids := by
    rw [← hids]
    intro hmem
    exact hid (by simpa using (mem_filter.mp hmem).2)
  clear hids
  induction ids generalizing server with
  | nil => rfl
  | cons id ids ih =>
    rw [mem_cons, not_or] at hout
    refine (ih _ hout.2).trans ?_
    rw [get?_move, if_neg hout.1]

theorem Linked.change (h : Linked X s) (hserver : t.server = s.server)
    (hq : Queued (s.server.get? X) (own X t.outbox)) (hprocess : ∀ q, t.process = some q →
      ProcessKnows X (tailOf (s.server.get? X) (own X t.outbox)) q) : Linked X t where
  oneRow := hserver ▸ h.oneRow
  queued := hserver ▸ hq
  process := hserver ▸ hprocess

theorem pull_nodup {server : Server} (h : server.OneRow) (overdue : List Uuid) :
    ((server.pull overdue).2.map TaskLaunch.id).Nodup := by
  have hrows : ((server.pull overdue).1.rows.map TaskLaunch.id).Nodup := by
    rw [pull_ids]
    exact h
  refine hrows.sublist (List.Sublist.map _ ?_)
  exact (take_sublist _ _).trans filter_sublist

theorem Linked.pull (h : Linked X s) {p} (hp : s.process = some p) (hidle : p.heartbeat = .idle)
    {overdue} (hguard : InChain X s (.pull overdue)) :
    Linked X
      { s with
        server := (s.server.pull overdue).1
        process := some { p with heartbeat := .pulled (s.server.pull overdue).2 } } := by
  simp only [InChain, leavesAlone, takesUp, hp, Bool.and_eq_true, decide_eq_true_eq] at hguard
  obtain ⟨halone, hguard⟩ := hguard
  have hone : (s.server.pull overdue).1.OneRow := by
    rw [Server.OneRow, pull_ids]
    exact h.oneRow
  have hget := get?_pull s.server halone
  refine ⟨hone, ?_, ?_⟩
  · simp only [hget]
    exact h.queued
  intro q hq
  cases hq
  simp only [hget]
  have hk := h.process p hp
  refine ⟨hk.oneTask, hk.stopped, ?_, ?_, ?_, hk.task, ?_⟩
  · intro hfalse
    obtain ⟨hzero, hnil, -⟩ := hk.fresh hfalse
    exact ⟨hzero, hnil, rfl⟩
  · intro pending hpulled
    obtain rfl := Heartbeat.pulled.inj hpulled
    refine ⟨pull_nodup h.oneRow overdue, ?_, ?_⟩
    · intro launch hmem hid hzero
      have hzero' : p.sent X = 0 := hzero
      have hin : X ∈ (s.server.pull overdue).2.map TaskLaunch.id :=
        List.mem_map.mpr ⟨launch, hmem, hid⟩
      simp only [hzero', hin, ne_eq, not_true_eq_false, decide_false, Bool.false_or, if_true,
        List.isEmpty_iff] at hguard
      have hrow := get?_of_mem hone (mem_pull hmem).1
      rw [hid, hget] at hrow
      rw [hrow, hguard]
      rfl
    · intro hfalse hout last hlast
      obtain ⟨hzero, -, -⟩ := hk.fresh hfalse
      have hunreconciled : p.puller.reconciled = false := hfalse
      simp only [hzero, hout, hunreconciled, ne_eq, not_true_eq_false, decide_false,
        Bool.false_or, if_false, Option.all_eq_true, decide_eq_true_eq] at hguard
      exact hguard last hlast
  · intro _ haccepted
    cases haccepted
  · intro hreconciled last hlast howned
    rcases hk.covered hreconciled last hlast howned with htask | haccepted
    · exact .inl htask
    · -- a heartbeat that pulls has submitted what it accepted
      rw [hidle] at haccepted
      cases haccepted

theorem Linked.send (h : Linked X s) {version delivery report}
    (hguard : InChain X s (.send X version delivery))
    (hfind : s.outbox.find? (fun r => r.launchId = X && r.expectedVersion = version) =
      some report) :
    delivery = .answered ∧ ∃ row rs, s.server.get? X = some row ∧ own X s.outbox = report :: rs ∧
      report.launchId = X ∧ s.server.report report = .ok (s.server.move X report.status) := by
  simp only [InChain, leavesAlone, takesUp, Bool.true_and, ne_eq, not_true_eq_false, decide_false,
    Bool.false_or, Bool.and_eq_true, decide_eq_true_eq, Option.any_eq_true] at hguard
  obtain ⟨hanswered, first, hhead, hfirst⟩ := hguard
  have hreport := List.find?_some hfind
  simp only [Bool.and_eq_true, decide_eq_true_eq] at hreport
  have hmem : report ∈ own X s.outbox := mem_own.mpr ⟨List.mem_of_find?_eq_some hfind, hreport.1⟩
  cases hrow : s.server.get? X with
  | none =>
    rw [h.queued.absent hrow] at hmem
    cases hmem
  | some row =>
    generalize hown : own X s.outbox = rs at hhead hmem
    cases rs with
    | nil => cases hmem
    | cons r rs =>
      obtain rfl := some.inj hhead
      have hqueued := h.queued
      rw [hrow, hown] at hqueued
      obtain ⟨hversion, hallowed, -, -⟩ := queued_deliver hqueued
      have hsame : report = r := by
        rcases mem_cons.mp hmem with heq | hrest
        · exact heq
        · have hlt := (chain_lt (hqueued.chain row rfl).2.2.2 hrest).1
          omega
      subst hsame
      refine ⟨hanswered, row, rs, rfl, rfl, hreport.1, ?_⟩
      simp [Server.report, hreport.1, hrow, hversion, hallowed]

/-- What the step keeps of the reports a process counts. -/
def Kept (X : Uuid) (s : State) (a : Act) (t : State) : Prop :=
  ∀ p q, s.process = some p → t.process = some q →
    (∀ id version delivery, a ≠ .send id version delivery) →
    Appends X s.outbox t.outbox p.sent q.sent

theorem kept_same (hprocess : ∀ p q, s.process = some p → t.process = some q → q.sent = p.sent)
    (houtbox : t.outbox = s.outbox) : Kept X s a t := by
  intro p q hp hq _
  rw [houtbox, hprocess p q hp hq]
  exact appends_refl

theorem kept_server {server} : Kept X s a { s with server := server } := by
  refine kept_same ?_ rfl
  intro p q hp hq
  rw [some.inj (hp.symm.trans hq)]

theorem Linked.create (h : Linked X s) {row} (hfree : s.server.get? row.id = none)
    (hstatus : row.status = .requested) (place) :
    Linked X { s with
        server :=
          { s.server with
            rows := s.server.rows.take place ++ row :: s.server.rows.drop place } } := by
  by_cases hid : X = row.id
  · subst hid
    have hnil := h.queued.absent hfree
    refine ⟨oneRow_insert h.oneRow hfree place, ?_, ?_⟩
    · simp only [get?_insert hfree, if_true, hnil]
      refine ⟨fun _ => rfl, ?_⟩
      intro launch hlaunch
      cases hlaunch
      rw [hstatus]
      exact ⟨by decide, trivial⟩
    intro p hp
    have hk := h.process p hp
    simp only [get?_insert hfree, if_true, hnil]
    rw [hfree] at hk
    -- nothing is known of a launch that was not there
    have hrequested : ∀ last, tailOf (some row) [] = some last → last.1 ∉ ownedStatuses := by
      intro last hlast
      rw [← some.inj hlast]
      simp only [endStatus, foldl_nil, hstatus]
      decide
    refine ⟨hk.oneTask, hk.stopped, hk.fresh, ?_, ?_, ?_, ?_⟩
    · intro pending hpulled
      obtain ⟨hnodup, hshown, -⟩ := hk.pulled pending hpulled
      refine ⟨hnodup, ?_, fun _ _ => hrequested⟩
      intro launch hmem hid hzero
      cases hshown launch hmem hid hzero
    · intro launches haccepted launch hmem hid
      cases (hk.accepted launches haccepted launch hmem hid).2
    · intro task hmem hid
      obtain ⟨_, _, hnone⟩ := hk.task task hmem hid
      cases hnone
    · intro _ last hlast howned
      exact absurd howned (hrequested last hlast)
  · refine h.server (oneRow_insert h.oneRow hfree place) ?_
    rw [get?_insert hfree, if_neg hid]

theorem Linked.sent (h : Linked X s) {id version delivery report}
    (hguard : InChain X s (.send id version delivery))
    (hfind : s.outbox.find? (fun r => r.launchId = id && r.expectedVersion = version) =
      some report) {server} (hserver : Handled s.server report delivery server) : Linked X
      { s with
        server := server
        outbox := if delivery = .lost then s.outbox
          else s.outbox.filter fun r => !report.sameKey r } := by
  by_cases hid : id = X
  · subst hid
    obtain ⟨rfl, row, rs, hrow, hown, hlid, hok⟩ := h.send hguard hfind
    have hqueued := h.queued
    rw [hrow, hown] at hqueued
    obtain ⟨-, -, hqueued', htail⟩ := queued_deliver hqueued
    have hdrop := own_drop_first hown (hqueued.chain row rfl).2
    have hmoved : (s.server.move id report.status).get? id = some (row.moved report.status) := by
      rw [get?_move, if_pos rfl, hrow]
      rfl
    obtain rfl : server = s.server.move id report.status := by
      cases hserver with
      | committed _ _ hok' => exact Except.ok.inj (hok'.symm.trans hok)
      | unchanged herror =>
        rcases herror with hrefused | ⟨e, herror⟩
        · cases hrefused
        · rw [hok] at herror
          cases herror
    simp only [reduceCtorEq, if_false]
    refine ⟨oneRow_move h.oneRow _ _, ?_, ?_⟩
    · simp only [hmoved, hdrop]
      exact hqueued'
    · intro p hp
      simp only [hmoved, hdrop, htail]
      have hk := h.process p hp
      rwa [hrow, hown] at hk
  · have hreport := List.find?_some hfind
    simp only [Bool.and_eq_true, decide_eq_true_eq] at hreport
    have hlid : report.launchId ≠ X := fun heq => hid (hreport.1.symm.trans heq)
    have hrows : own X (if delivery = .lost then s.outbox
        else s.outbox.filter fun r => !report.sameKey r) = own X s.outbox := by
      split
      · rfl
      · exact own_drop_other hlid
    have hnext : Linked X { s with server := server } := by
      cases hserver with
      | unchanged => exact h
      | committed _ _ hok =>
        obtain ⟨row, -, -, -, rfl⟩ := report_ok hok
        refine h.server (oneRow_move h.oneRow _ _) ?_
        rw [get?_move, if_neg fun heq => hlid heq.symm]
    refine ⟨hnext.oneRow, ?_, ?_⟩
    · simp only [hrows]
      exact hnext.queued
    · intro p hp
      simp only [hrows]
      exact hnext.process p hp

theorem InChain.unreported {p pending policy} (hguard : InChain X s (.decide policy))
    (hp : s.process = some p)
    (hpulled : p.heartbeat = .pulled pending) : ∀ launch ∈ pending, launch.id = X →
      launch.status = .requested → p.puller.prune pending X = none → p.sent X = 0 := by
  simp only [InChain, leavesAlone, takesUp, hp, hpulled, Bool.true_and, List.all_eq_true,
    Bool.or_eq_true, decide_eq_true_eq] at hguard
  intro launch hmem hid hstatus hpruned
  simpa [hid, hstatus, hpruned] using hguard launch hmem

theorem linked_step (h : Linked X s) (hguard : InChain X s a) (hstep : step s a = some t) :
    Linked X t ∧ Kept X s a t := by
  have halone : leavesAlone X a = true := by
    simp only [InChain, Bool.and_eq_true] at hguard
    exact hguard.1
  cases step_cases hstep with
  | created row hfree hstatus place => exact ⟨h.create hfree hstatus place, kept_server⟩
  | cancelled id server hclose | expired id server hclose =>
    have hid : id ≠ X := by simpa [leavesAlone] using halone
    exact ⟨h.server (oneRow_close h.oneRow hclose) (get?_close hclose hid), kept_server⟩
  | advertised => exact ⟨h.server h.oneRow rfl, kept_server⟩
  | booted hnone =>
    refine ⟨h.change rfl h.queued ?_, kept_same ?_ rfl⟩
    · intro q hq
      cases hq
      exact processKnows_fresh
    · intro p q hp
      simp [hp] at hnone
  | crashed =>
    refine ⟨h.change rfl h.queued ?_, kept_same ?_ rfl⟩
    · intro q hq
      cases hq
    · intro p q _ hq
      cases hq
  | pulled p hp hidle overdue =>
    refine ⟨h.pull hp hidle hguard, kept_same ?_ rfl⟩
    intro p' q hp' hq
    cases hp.symm.trans hp'
    cases hq
    rfl
  | decided p hp pending hpulled policy pass hpass =>
    obtain ⟨happ, hqueued, hk⟩ := decide_linked h.queued (h.process p hp) hpulled
      (hguard.unreported hp hpulled) hpass
    refine ⟨h.change rfl hqueued ?_, ?_⟩
    · intro q hq
      cases hq
      exact hk
    · intro p' q hp' hq _
      cases hp.symm.trans hp'
      cases hq
      exact happ
  | submitted p hp launches haccepted =>
    refine ⟨h.change rfl h.queued ?_, kept_same ?_ rfl⟩
    · intro q hq
      cases hq
      exact (h.process p hp).submit haccepted
    · intro p' q hp' hq
      cases hp.symm.trans hp'
      cases hq
      exact (@submitAll_rest p launches).2.1
  | sent id version delivery report hfind server hserver =>
    exact ⟨h.sent hguard hfind hserver, fun _ _ _ _ hno => absurd rfl (hno id version delivery)⟩
  | ran p hp task hmem outcome _ hran =>
    have hkeeps : Keeps X (s.server.get? X) s t p := by
      by_cases hid : task.launch.id = X
      · exact hran.keeps_self hmem hid h.stops h.queued (h.process p hp)
      · exact hran.keeps_other hid h.stops h.queued (h.process p hp)
    obtain ⟨q, hq, happ, hk⟩ := hkeeps.process
    refine ⟨h.change hkeeps.server hkeeps.queued ?_, ?_⟩
    · intro q' hq'
      cases hq.symm.trans hq'
      exact hk
    · intro p' q' hp' hq' _
      cases hp.symm.trans hp'
      cases hq.symm.trans hq'
      exact happ
  | observed p hp task hmem hstops =>
    have hid : task.launch.id ≠ X := by
      intro hid
      rw [hid, h.stops] at hstops
      cases hstops
    have hk := h.process p hp
    refine ⟨h.change rfl h.queued ?_, kept_same ?_ rfl⟩
    · intro q hq
      cases hq
      refine hk.congr (hk.oneTask.setPhase .unwinding) ?_ rfl rfl rfl
        (setPhase_other hid .unwinding) setPhase_nil
      simp only [Process.stop, mem_cons, not_or]
      exact ⟨fun heq => hid heq.symm, hk.stopped⟩
    · intro p' q hp' hq
      cases hp.symm.trans hp'
      cases hq
      rfl
  | exited p hp id =>
    have hk := h.process p hp
    refine ⟨h.change rfl h.queued ?_, kept_same ?_ rfl⟩
    · intro q hq
      cases hq
      exact hk.congr hk.oneTask hk.stopped rfl rfl rfl (fun _ _ => Iff.rfl) fun h => h
    · intro p' q hp' hq
      cases hp.symm.trans hp'
      cases hq
      rfl

/-- **Launch reports form a coherent chain**, over every run in which nobody else changes the
launch, its reports are sent in order and answered, and each process takes the launch up where its
queue is delivered. -/
theorem reports_coherent {as : List Act} (h : Run step (InChain X) State.initial as s)
    (hguard : InChain X s a) (hstep : step s a = some t) : Coherent X s a t := by
  have hs : Linked X s :=
    @Run.invariant _ _ step (InChain X) (Linked X)
      (fun hs hguard hstep => (linked_step hs hguard hstep).1) _ _ _ h linked_initial
  obtain ⟨ht, hkept⟩ := linked_step hs hguard hstep
  refine ⟨?_, hkept, ?_⟩
  · intro version delivery report ha _ hfind
    subst ha
    obtain ⟨-, row, rs, -, -, -, hok⟩ := hs.send hguard hfind
    exact ⟨_, hok⟩
  intro p hp hreconciled row hrow howned
  have hk := ht.process p hp
  have hqueued := ht.queued
  rw [hrow] at hk hqueued
  by_cases hend : endStatus row.status (own X t.outbox) ∈ ownedStatuses
  · rcases hk.covered hreconciled _ rfl hend with ⟨task, hmem, hid⟩ | haccepted
    · exact .inl (owns_iff.mpr ⟨task, hmem, hid⟩)
    · exact .inr (.inl haccepted)
  · exact .inr (.inr (chain_ends (hqueued.chain row rfl).2 howned hend))

end Run

/-- The launch of a run is prepared, and its `running` is delivered. -/
theorem reports_coherent_sample :
    ∃ s t : State, (s.server.get? ⟨"a"⟩).map TaskLaunch.status = some .preparing ∧
      (t.server.get? ⟨"a"⟩).map TaskLaunch.status = some .running ∧
      Coherent ⟨"a"⟩ s (.send ⟨"a"⟩ 3 .answered) t := by
  have hrun : (execWithin step (InChain ⟨"a"⟩) State.initial
      ([.advertise true true, .boot] ++ acceptRun "a" 1 ++ startRun "a")).any
      (fun s => (s.server.get? ⟨"a"⟩).map TaskLaunch.status = some .preparing ∧
        InChain ⟨"a"⟩ s (.send ⟨"a"⟩ 3 .answered) ∧
        (step s (.send ⟨"a"⟩ 3 .answered)).any fun t =>
          (t.server.get? ⟨"a"⟩).map TaskLaunch.status = some .running) = true := by
    decide +kernel
  obtain ⟨s, hs, hnext⟩ := Run.of_any hrun
  obtain ⟨hbefore, hguard, hany⟩ := of_decide_eq_true hnext
  obtain ⟨t, hstep, hafter⟩ := (Option.any_eq_true _ _).mp hany
  exact ⟨s, t, hbefore, of_decide_eq_true hafter, reports_coherent hs hguard hstep⟩

/-- `preparing` is still in the outbox when the daemon restarts; the new
process pulls the launch as accepted, at the version that report carries. -/
def restartRun : List Act :=
  [.advertise true true, .boot] ++ acceptRun "a" 1 ++
    [.send ⟨"a"⟩ 1 .answered, .run ⟨"a"⟩ .done, .run ⟨"a"⟩ .done, .crash, .boot, .pull []]

/-- The `failed` of the orphan has the key of the queued `preparing`, and
is dropped: nothing ends the launch. -/
theorem reports_dropped : ∃ (s t : State), Run step (Alone ⟨"a"⟩) State.initial restartRun s ∧
      Alone ⟨"a"⟩ s (.decide (samplePolicy 1)) ∧ step s (.decide (samplePolicy 1)) = some t ∧
      ¬ Coherent ⟨"a"⟩ s (.decide (samplePolicy 1)) t := by
  have hrun : (execWithin step (Alone ⟨"a"⟩) State.initial restartRun).any
      (fun s => (step s (.decide (samplePolicy 1))).any fun t =>
        s.process.any fun p => t.process.any fun q =>
          own ⟨"a"⟩ t.outbox = own ⟨"a"⟩ s.outbox ∧ p.sent ⟨"a"⟩ = 0 ∧
            q.sent ⟨"a"⟩ = 1) = true := by
    decide +kernel
  obtain ⟨s, hs, hnext⟩ := Run.of_any hrun
  obtain ⟨t, hstep, hany⟩ := (Option.any_eq_true _ _).mp hnext
  obtain ⟨p, hp, hany⟩ := (Option.any_eq_true _ _).mp hany
  obtain ⟨q, hq, hcounts⟩ := (Option.any_eq_true _ _).mp hany
  obtain ⟨hown, hbefore, hafter⟩ := of_decide_eq_true hcounts
  refine ⟨s, t, hs, rfl, hstep, ?_⟩
  intro hcoherent
  obtain ⟨new, happ, hcount⟩ := hcoherent.kept p q hp hq fun _ _ _ h => by cases h
  have hlength := congrArg List.length happ
  rw [hown, length_append] at hlength
  omega

end StudioOS.Daemon
