import Mathlib.Data.List.Nodup
import StudioOS.Daemon.Model

/-!
# Daemon — Steps

What a step leaves unchanged, and what it can do: a task of the executor
in seven cases (`Ran`), the loops of a poll through what they do to one
launch.
-/

namespace StudioOS.Daemon

open List Option

open Launches (TaskLaunchStatus TaskLaunchReasonCode TaskLaunchActor allowedTransitions)

theorem get?_move (server : Server) (id other) (status) :
    (server.move id status).get? other =
      if other = id then (server.get? id).map fun row => row.moved status
      else server.get? other := by
  simp only [Server.get?, Server.move]
  induction server.rows with
  | nil => simp
  | cons row rows ih =>
    by_cases hid : row.id = id
    · by_cases hother : other = id
      · subst hother
        simp [hid, TaskLaunch.moved]
      · have hne : ¬ id = other := fun h => hother h.symm
        simp only [map_cons, hid, if_true, List.find?_cons, TaskLaunch.moved, hne,
          decide_false, if_neg hother] at ih ⊢
        exact ih
    · by_cases hother : other = id
      · subst hother
        simp only [if_true] at ih
        simpa [hid] using ih
      by_cases hrow : row.id = other
      · simp [hother, hrow]
      · simp only [if_neg hother] at ih
        simp only [map_cons, if_neg hid, List.find?_cons, hrow, decide_false, if_neg hother]
        exact ih

variable {server : Server} {s t : State}

theorem get?_id {id row} (h : server.get? id = some row) : row.id = id := by
  simpa using List.find?_some h

theorem report_ok {server' report} (h : server.report report = .ok server') :
    ∃ row, server.get? report.launchId = some row ∧ row.version = report.expectedVersion ∧
      allowedTransitions row.status report.status = some .machine ∧
      server' = server.move report.launchId report.status := by
  rw [Server.report] at h
  cases hrow : server.get? report.launchId with
  | none => simp [hrow] at h
  | some row =>
    simp only [hrow] at h
    by_cases hversion : row.version = report.expectedVersion
    · rw [if_neg (not_not.mpr hversion)] at h
      cases hallowed : allowedTransitions row.status report.status with
      | none => simp [hallowed] at h
      | some actor =>
        simp only [hallowed] at h
        by_cases hactor : actor = .machine
        · rw [if_neg (not_not.mpr hactor)] at h
          subst hactor
          exact ⟨row, rfl, hversion, hallowed, (Except.ok.inj h).symm⟩
        · rw [if_pos hactor] at h
          cases h
    · rw [if_pos hversion] at h
      cases h

theorem close_some {server' id status} (h : server.close id status = some server') :
    ∃ row, server.get? id = some row ∧ row.status.isTerminal = false ∧
      server' = server.move id status := by
  rw [Server.close] at h
  cases hrow : server.get? id with
  | none => simp [hrow] at h
  | some row =>
    by_cases hterminal : row.status.isTerminal = true
    · simp [hrow, hterminal] at h
    · rw [Bool.not_eq_true] at hterminal
      simp only [hrow, hterminal, Bool.false_eq_true, if_false, Option.some.injEq] at h
      exact ⟨row, rfl, hterminal, h.symm⟩

/-! ## Tasks -/

section Tasks

variable {p : Process} {id : Uuid} {task : Task}

/-- At most one task for each launch. -/
def Process.OneTask (p : Process) : Prop := (p.tasks.map fun task => task.launch.id).Nodup

theorem task?_mem (h : p.task? id = some task) : task ∈ p.tasks ∧ task.launch.id = id :=
  ⟨List.mem_of_find?_eq_some h, by simpa using List.find?_some h⟩

theorem owns_iff : p.owns id = true ↔ ∃ task ∈ p.tasks, task.launch.id = id := by
  simp [Process.owns, Process.task?]

theorem Process.OneTask.unique (h : p.OneTask) {a b} (ha : a ∈ p.tasks) (hb : b ∈ p.tasks)
    (hid : a.launch.id = b.launch.id) : a = b :=
  inj_on_of_nodup_map h ha hb hid

theorem setPhase_ids (phase) :
    ((p.setPhase id phase).tasks.map fun task => task.launch.id) =
      p.tasks.map fun task => task.launch.id := by
  simp only [Process.setPhase, List.map_map]
  refine map_congr_left ?_
  intro task _
  by_cases h : task.launch.id = id <;> simp [h]

theorem mem_setPhase {phase} : task ∈ (p.setPhase id phase).tasks ↔
      (task.launch.id ≠ id ∧ task ∈ p.tasks) ∨
        ∃ old ∈ p.tasks, old.launch.id = id ∧ task = { old with phase := phase } := by
  simp only [Process.setPhase, List.mem_map]
  constructor
  · rintro ⟨old, hold, rfl⟩
    by_cases h : old.launch.id = id
    · rw [if_pos h]
      exact .inr ⟨old, hold, h, rfl⟩
    · rw [if_neg h]
      exact .inl ⟨h, hold⟩
  · rintro (⟨hne, hmem⟩ | ⟨old, hold, hid, rfl⟩)
    · exact ⟨task, hmem, if_neg hne⟩
    · exact ⟨old, hold, if_pos hid⟩

theorem mem_dropTask : task ∈ (p.dropTask id).tasks ↔ task ∈ p.tasks ∧ task.launch.id ≠ id := by
  simp [Process.dropTask]

theorem Process.OneTask.setPhase (h : p.OneTask) (phase) : (p.setPhase id phase).OneTask := by
  rw [Process.OneTask, setPhase_ids]
  exact h

theorem Process.OneTask.dropTask (h : p.OneTask) : (p.dropTask id).OneTask :=
  h.sublist (filter_sublist.map _)

theorem Process.OneTask.submit (h : p.OneTask) (launch) : (p.submit launch).OneTask := by
  rw [Process.submit]
  split
  · exact h
  rename_i hnew
  simp only [Bool.or_eq_true, decide_eq_true_eq, not_or] at hnew
  have hfree : ∀ task ∈ p.tasks, task.launch.id ≠ launch.id :=
    fun task hmem hid => hnew.1 (owns_iff.mpr ⟨task, hmem, hid⟩)
  simp only [Process.OneTask, map_append, map_cons, map_nil]
  refine nodup_append.mpr ⟨h, nodup_singleton _, ?_⟩
  rintro a ha b hb rfl
  obtain ⟨task, hmem, rfl⟩ := List.mem_map.mp ha
  exact hfree task hmem (mem_singleton.mp hb)

theorem mem_submitAll {launches : List TaskLaunch}
    (h : task ∈ (launches.foldl Process.submit p).tasks) : task ∈ p.tasks ∨
      task.phase = .resolving ∧ task.launch ∈ launches ∧ ∀ old ∈ p.tasks,
        old.launch.id ≠ task.launch.id := by
  induction launches generalizing p with
  | nil => exact .inl h
  | cons launch launches ih =>
    rcases ih h with hmem | ⟨hphase, hmem, hfree⟩
    · rw [Process.submit] at hmem
      split at hmem
      · exact .inl hmem
      rename_i hnew
      simp only [Bool.or_eq_true, decide_eq_true_eq, not_or] at hnew
      rcases mem_append.mp hmem with hold | hadded
      · exact .inl hold
      · rw [mem_singleton] at hadded
        subst hadded
        exact .inr ⟨rfl, .head _, fun old hold hid => hnew.1 (owns_iff.mpr ⟨old, hold, hid⟩)⟩
    · refine .inr ⟨hphase, .tail _ hmem, ?_⟩
      intro old hold
      refine hfree old ?_
      rw [Process.submit]
      split
      · exact hold
      · exact mem_append_left _ hold

theorem subset_submitAll {launches : List TaskLaunch} {task} (h : task ∈ p.tasks) :
    task ∈ (launches.foldl Process.submit p).tasks := by
  induction launches generalizing p with
  | nil => exact h
  | cons launch launches ih =>
    refine ih ?_
    rw [Process.submit]
    split
    · exact h
    · exact mem_append_left _ h

theorem submitAll_owns {launches : List TaskLaunch} {launch : TaskLaunch}
    (h : launch ∈ launches) (hstopped : launch.id ∉ p.stopped) :
    ∃ task ∈ (launches.foldl Process.submit p).tasks, task.launch.id = launch.id := by
  induction launches generalizing p with
  | nil => cases h
  | cons first launches ih =>
    rcases mem_cons.mp h with rfl | hrest
    · have hone : ∃ task ∈ (p.submit launch).tasks, task.launch.id = launch.id := by
        by_cases howned : p.owns launch.id = true
        · obtain ⟨task, hmem, hid⟩ := owns_iff.mp howned
          exact ⟨task, by simpa [Process.submit, howned] using hmem, hid⟩
        · exact ⟨{ launch := launch, phase := .resolving },
            by simp [Process.submit, howned, hstopped], rfl⟩
      obtain ⟨task, hmem, hid⟩ := hone
      exact ⟨task, @subset_submitAll (p.submit launch) launches task hmem, hid⟩
    · refine ih hrest ?_
      rw [Process.submit]
      split <;> exact hstopped

theorem submitAll_rest (launches : List TaskLaunch) :
    (launches.foldl Process.submit p).puller = p.puller ∧
    (launches.foldl Process.submit p).sent = p.sent ∧
    (launches.foldl Process.submit p).stopped = p.stopped ∧
    (launches.foldl Process.submit p).alive = p.alive := by
  induction launches generalizing p with
  | nil => exact ⟨rfl, rfl, rfl, rfl⟩
  | cons launch launches ih =>
    have hone : (p.submit launch).puller = p.puller ∧ (p.submit launch).sent = p.sent ∧
        (p.submit launch).stopped = p.stopped ∧ (p.submit launch).alive = p.alive := by
      rw [Process.submit]
      split <;> exact ⟨rfl, rfl, rfl, rfl⟩
    obtain ⟨h₁, h₂, h₃, h₄⟩ := @ih (p.submit launch)
    exact ⟨h₁.trans hone.1, h₂.trans hone.2.1, h₃.trans hone.2.2.1, h₄.trans hone.2.2.2⟩

theorem Process.OneTask.submitAll (h : p.OneTask) (launches : List TaskLaunch) :
    (launches.foldl Process.submit p).OneTask := by
  induction launches generalizing p with
  | nil => exact h
  | cons launch launches ih => exact ih (h.submit launch)

end Tasks

/-- The next phase, where no report is made. -/
inductive Next (server : Server) (id : Uuid) : Phase → Phase → Prop where
  | resolved : Next server id .resolving .checking
  | prepared : Next server id .preparing .rechecking
  | rechecked : Next server id .rechecking .readying
  | ready : Next server id .readying .issuing
  | issued (h : server.issues id = true) : Next server id .issuing .issued

/-- What a task of the executor does between two awaits. -/
inductive Ran (s : State) (p : Process) (task : Task) : State → Prop where
  /-- The task ends, cancelled or stopped, without a report. -/
  | ended (stopped) (hsub : ∀ id ∈ stopped, id ∈ p.stopped ∨ s.server.stops id = true)
      (hsup : ∀ id ∈ p.stopped, id ∈ stopped)
      (hwhy : task.phase = .unwinding ∨ task.launch.id ∈ stopped) :
      Ran s p task
        { s with process := some { (p.dropTask task.launch.id) with stopped := stopped } }
  | failed (reasonCode) (hphase : task.phase ≠ .unwinding) :
      Ran s p task (s.runReport (p.dropTask task.launch.id) task.launch .failed reasonCode)
  | moved (phase) (h : Next s.server task.launch.id task.phase phase) :
      Ran s p task { s with process := some (p.setPhase task.launch.id phase) }
  | prepares (h : task.phase = .checking) :
      Ran s p task
        (s.runReport (p.setPhase task.launch.id .preparing) task.launch .preparing .none)
  | starts (h : task.phase = .issued) :
      Ran s p task
        { (s.reported { (p.setPhase task.launch.id .waiting) with
              alive := task.launch.id :: p.alive }
            ((s.reporter p).report task.launch .running .none)) with
          started := task.launch.id :: s.started }
  | unstartable (h : task.phase = .issued) (reasonCode) :
      Ran s p task
        (s.reported (p.dropTask task.launch.id)
          (((s.reporter p).report task.launch .running .none).report task.launch .failed
            reasonCode))
  | finished (h : task.phase = .waiting) (status) (hstatus : status = .succeeded ∨ status = .failed)
      (reasonCode) :
      Ran s p task (s.runReport (p.dropTask task.launch.id) task.launch status reasonCode)

theorem check_cases {next : State} {p : Process} {task : Task}
    (h : s.check p task.launch.id next = t) : Ran s p task t ∨ t = next := by
  subst h
  rw [State.check]
  split
  · rename_i hstopped
    exact .inl (.ended p.stopped (fun _ h => .inl h) (fun _ h => h) (.inr hstopped))
  split
  · rename_i hstops
    refine .inl (.ended (task.launch.id :: p.stopped) ?_ ?_ ?_)
    · intro id hid
      rcases mem_cons.mp hid with rfl | hmem
      · exact .inr hstops
      · exact .inl hmem
    · intro id hid
      exact .tail _ hid
    · exact .inr (.head _)
  · exact .inr rfl

/-- **What a task can do.** -/
theorem runTask_cases {p : Process} {task : Task} {outcome : Outcome}
    (h : s.runTask p task outcome = some t) : Ran s p task t := by
  obtain ⟨launch, phase⟩ := task
  cases phase with
  | unwinding =>
    cases outcome <;> cases h <;>
      exact .ended p.stopped (fun _ h => .inl h) (fun _ h => h) (.inl rfl)
  | resolving =>
    cases outcome <;> cases h
    · exact .moved _ .resolved
    · exact .failed _ (by simp)
  | checking =>
    cases outcome with
    | done =>
      rcases check_cases (some.inj h) with hran | rfl
      · exact hran
      · exact .prepares rfl
    | blind =>
      cases h
      exact .prepares rfl
    | error reasonCode =>
      cases h
      exact .failed _ (by simp)
    | result => cases h
  | preparing =>
    cases outcome <;> cases h
    · exact .moved _ .prepared
    · exact .failed _ (by simp)
  | rechecking =>
    cases outcome with
    | done =>
      rcases check_cases (some.inj h) with hran | rfl
      · exact hran
      · exact .moved _ .rechecked
    | blind =>
      cases h
      exact .moved _ .rechecked
    | error reasonCode =>
      cases h
      exact .failed _ (by simp)
    | result => cases h
  | readying =>
    cases outcome <;> cases h
    · exact .moved _ .ready
    · exact .failed _ (by simp)
  | issuing =>
    cases outcome with
    | done =>
      by_cases hissues : s.server.issues launch.id = true
      · simp only [State.runTask, hissues, if_true, Option.some.injEq] at h
        subst h
        exact .moved _ (.issued hissues)
      · simp [State.runTask, hissues] at h
    | error reasonCode =>
      cases h
      exact .failed _ (by simp)
    | blind | result => cases h
  | issued =>
    cases outcome with
    | done =>
      cases h
      exact .starts rfl
    | error reasonCode =>
      cases h
      exact .failed _ (by simp)
    | blind => cases h
    | result status reasonCode =>
      cases status <;> cases h
      exact .unstartable rfl _
  | waiting =>
    cases outcome with
    | error reasonCode =>
      cases h
      exact .failed _ (by simp)
    | done | blind => cases h
    | result status reasonCode =>
      simp only [State.runTask] at h
      by_cases hstatus : (status = .succeeded || status = .failed) = true
      · rw [if_pos hstatus] at h
        by_cases hstopped : launch.id ∈ p.stopped
        · rw [if_pos hstopped] at h
          cases h
          exact .ended p.stopped (fun _ h => .inl h) (fun _ h => h) (.inr hstopped)
        · rw [if_neg hstopped] at h
          cases h
          exact .finished rfl _ (by simpa using hstatus) _
      · rw [if_neg hstatus] at h
        cases h

/-- The server after a request of the outbox. -/
inductive Handled (server : Server) (report : LaunchReport) (delivery : Delivery) :
    Server → Prop where
  | committed (server') (h : delivery ≠ .refused) (hok : server.report report = .ok server') :
      Handled server report delivery server'
  | unchanged (h : delivery = .refused ∨ ∃ e, server.report report = .error e) :
      Handled server report delivery server

/-- **What a step can do.** -/
inductive Stepped (s : State) : Act → State → Prop where
  | created (row) (hfree : s.server.get? row.id = none) (hstatus : row.status = .requested)
      (place) :
      Stepped s (.create row.id row.projectId row.harnessId row.profileKey place)
        { s with
          server :=
            { s.server with rows := s.server.rows.take place ++ row :: s.server.rows.drop place } }
  | cancelled (id server) (h : s.server.close id .cancelled = some server) :
      Stepped s (.cancel id) { s with server := server }
  | expired (id server) (h : s.server.close id .expired = some server) :
      Stepped s (.expire id) { s with server := server }
  | advertised (launchSafety launchProfiles) :
      Stepped s (.advertise launchSafety launchProfiles)
        { s with
          server :=
            { s.server with launchSafety := launchSafety, launchProfiles := launchProfiles } }
  | booted (h : s.process = none) : Stepped s .boot { s with process := some .fresh }
  | crashed : Stepped s .crash { s with process := none }
  | pulled (p) (hp : s.process = some p) (hidle : p.heartbeat = .idle) (overdue) :
      Stepped s (.pull overdue)
        { s with
          server := (s.server.pull overdue).1
          process := some { p with heartbeat := .pulled (s.server.pull overdue).2 } }
  | decided (p) (hp : s.process = some p) (pending) (hpulled : p.heartbeat = .pulled pending)
      (policy pass) (hpass : p.puller.poll (s.reporter p) p.owns policy pending = pass) :
      Stepped s (.decide policy)
        (s.reported
          { p with
            puller := { decided := pass.decided, reconciled := true }
            heartbeat := .accepted pass.accepted } pass.reporter)
  | submitted (p) (hp : s.process = some p) (launches)
      (haccepted : p.heartbeat = .accepted launches) :
      Stepped s .submit
        { s with process := some { launches.foldl Process.submit p with heartbeat := .idle } }
  | sent (id version delivery report)
      (hfind : s.outbox.find? (fun r => r.launchId = id && r.expectedVersion = version) =
        some report) (server) (hserver : Handled s.server report delivery server) :
      Stepped s (.send id version delivery)
        { s with
          server := server
          outbox := if delivery = .lost then s.outbox
            else s.outbox.filter fun r => !report.sameKey r }
  | ran (p) (hp : s.process = some p) (task) (hmem : task ∈ p.tasks) (outcome t)
      (h : Ran s p task t) :
      Stepped s (.run task.launch.id outcome) t
  | observed (p) (hp : s.process = some p) (task) (hmem : task ∈ p.tasks)
      (hstops : s.server.stops task.launch.id = true) :
      Stepped s (.observe task.launch.id) { s with process := some (p.stop task.launch.id) }
  | exited (p) (hp : s.process = some p) (id) :
      Stepped s (.exit id) { s with process := some { p with alive := p.alive.erase id } }

theorem step_cases {a : Act} (h : step s a = some t) : Stepped s a t := by
  cases a with
  | create id projectId harnessId profileKey place =>
    simp only [step] at h
    split at h
    · cases h
    · rename_i hfree
      rw [Bool.not_eq_true, isSome_eq_false_iff, isNone_iff_eq_none] at hfree
      cases h
      exact .created ⟨id, projectId, harnessId, profileKey, .requested, 1⟩ hfree rfl place
  | cancel id =>
    simp only [step, map_eq_some_iff] at h
    obtain ⟨server, hclose, rfl⟩ := h
    exact .cancelled id server hclose
  | expire id =>
    simp only [step, map_eq_some_iff] at h
    obtain ⟨server, hclose, rfl⟩ := h
    exact .expired id server hclose
  | advertise launchSafety launchProfiles =>
    cases h
    exact .advertised launchSafety launchProfiles
  | boot =>
    simp only [step] at h
    split at h
    · cases h
    · rename_i hnone
      rw [Bool.not_eq_true, isSome_eq_false_iff, isNone_iff_eq_none] at hnone
      cases h
      exact .booted hnone
  | crash =>
    simp only [step] at h
    split at h
    · cases h
      exact .crashed
    · cases h
  | pull overdue =>
    simp only [step] at h
    split at h
    · cases h
    rename_i p hp
    split at h
    · rename_i hidle
      cases h
      exact .pulled p hp hidle overdue
    · cases h
  | decide policy =>
    simp only [step] at h
    split at h
    · cases h
    rename_i p hp
    split at h
    · rename_i pending hpulled
      cases h
      exact .decided p hp pending hpulled policy _ rfl
    · cases h
  | submit =>
    simp only [step] at h
    split at h
    · cases h
    rename_i p hp
    split at h
    · rename_i launches haccepted
      cases h
      exact .submitted p hp launches haccepted
    · cases h
  | send id expectedVersion delivery =>
    simp only [step] at h
    split at h
    · cases h
    rename_i report hfind
    cases h
    refine .sent id expectedVersion delivery report hfind _ ?_
    split
    · rename_i hrefused
      exact .unchanged (.inl hrefused)
    rename_i hrefused
    split
    · rename_i server hok
      exact .committed server hrefused hok
    · rename_i e herror
      exact .unchanged (.inr ⟨e, herror⟩)
  | run id outcome =>
    simp only [step] at h
    split at h
    · cases h
    rename_i p hp
    split at h
    · cases h
    · rename_i task htask
      obtain ⟨hmem, rfl⟩ := task?_mem htask
      exact .ran p hp task hmem outcome t (runTask_cases h)
  | observe id =>
    simp only [step] at h
    split at h
    · cases h
    rename_i p hp
    split at h
    · rename_i howned
      simp only [Bool.and_eq_true] at howned
      obtain ⟨task, hmem, rfl⟩ := owns_iff.mp howned.1.1
      cases h
      exact .observed p hp task hmem howned.2
    · cases h
  | exit id =>
    simp only [step] at h
    split at h
    · cases h
    · rename_i p hp
      split at h
      · cases h
        exact .exited p hp id
      · cases h

theorem accepted_orphans (isExecuting) (pending : List TaskLaunch) (pass) :
    (pending.foldl (Pass.failOrphan isExecuting) pass).accepted = pass.accepted := by
  induction pending generalizing pass with
  | nil => rfl
  | cons launch pending ih =>
    refine (ih _).trans ?_
    rw [Pass.failOrphan]
    split <;> rfl

theorem accepted_opened (puller : LaunchPuller) (reporter isExecuting pending) :
    (puller.opened reporter isExecuting pending).accepted = [] := by
  simp only [LaunchPuller.opened]
  split
  · rfl
  · exact accepted_orphans isExecuting pending _

def State.initial : State :=
  { server := { rows := [], launchSafety := false, launchProfiles := false }
    outbox := []
    process := none
    started := [] }

end StudioOS.Daemon
