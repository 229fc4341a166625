import StudioOS.Daemon.Capacity
import StudioOS.Launch.StateMachine

/-!
# Daemon — Starts

How often the harness of a launch is started. A start needs a credential, so
the server had moved the launch past `requested`; from then on no pull shows
it as requested, and no other process accepts it.
-/

namespace StudioOS.Daemon

open List Option Runs
open Launches (TaskLaunchStatus TaskLaunchReasonCode TaskLaunchActor allowedTransitions)

def Server.statusOf (server : Server) (id : Uuid) : Option TaskLaunchStatus :=
  (server.get? id).map TaskLaunch.status

/-- The launch is there, and is no longer requested. -/
def Server.Past (server : Server) (id : Uuid) : Prop :=
  ∃ status, server.statusOf id = some status ∧ status ≠ .requested

def Server.Closed (server : Server) (id : Uuid) : Prop :=
  ∃ status, server.statusOf id = some status ∧ status.isTerminal = true

/-- Launches stay, requested ones aside they stay past it, and closed
ones stay closed. -/
structure Advances (a b : Server) : Prop where
  past : ∀ id, a.Past id → b.Past id
  closed : ∀ id, a.Closed id → b.Closed id

theorem Advances.refl (a) : Advances a a := ⟨fun _ h => h, fun _ h => h⟩

theorem Advances.trans {a b c} (hab : Advances a b) (hbc : Advances b c) : Advances a c :=
  ⟨fun id h => hbc.past id (hab.past id h), fun id h => hbc.closed id (hab.closed id h)⟩

theorem statusOf_move (server : Server) (id other) (status) :
    (server.move id status).statusOf other =
      if other = id then (server.statusOf id).map fun _ => status else server.statusOf other := by
  rw [Server.statusOf, get?_move]
  by_cases h : other = id
  · rw [if_pos h, if_pos h, Option.map_map, Server.statusOf, Option.map_map]
    rfl
  · rw [if_neg h, if_neg h, Server.statusOf]

variable {id : Uuid} {status : TaskLaunchStatus} {launch row : TaskLaunch}

theorem advances_move {server} (hpast : status ≠ .requested)
    (hclosed : ¬ server.Closed id ∨ status.isTerminal = true) :
    Advances server (server.move id status) := by
  constructor
  · rintro other ⟨old, hold, hne⟩
    by_cases h : other = id
    · subst h
      exact ⟨status, by rw [statusOf_move, if_pos rfl, hold]; rfl, hpast⟩
    · exact ⟨old, by rw [statusOf_move, if_neg h, hold], hne⟩
  · rintro other ⟨old, hold, hterminal⟩
    by_cases h : other = id
    · subst h
      rcases hclosed with hopen | hstatus
      · exact absurd ⟨old, hold, hterminal⟩ hopen
      · exact ⟨status, by rw [statusOf_move, if_pos rfl, hold]; rfl, hstatus⟩
    · exact ⟨old, by rw [statusOf_move, if_neg h, hold], hterminal⟩

theorem advances_report {server server' report}
    (h : server.report report = .ok server') : Advances server server' := by
  obtain ⟨row, hrow, -, hallowed, rfl⟩ := report_ok h
  have hstatus : server.statusOf report.launchId = some row.status := by
    rw [Server.statusOf, hrow]
    rfl
  refine advances_move ?_ (.inl ?_)
  · intro hreq
    rw [hreq] at hallowed
    revert hallowed
    cases row.status <;> simp [allowedTransitions]
  · rintro ⟨status, hs, hterminal⟩
    rw [hstatus] at hs
    cases hs
    rw [(Launches.allowed_rank hallowed).1] at hterminal
    cases hterminal

theorem advances_close {server server'} (hstatus : status.isTerminal = true)
    (h : server.close id status = some server') :
    Advances server server' := by
  obtain ⟨row, -, -, rfl⟩ := close_some h
  refine advances_move ?_ (.inr hstatus)
  rintro rfl
  cases hstatus

theorem advances_pull (server) (overdue) : Advances server (server.pull overdue).1 := by
  simp only [Server.pull]
  generalize List.filter _ (List.map TaskLaunch.id _) = ids
  induction ids generalizing server with
  | nil => exact .refl server
  | cons id ids ih => exact (advances_move (by decide) (.inr rfl)).trans (ih _)

theorem get?_insert {server : Server} (hfree : server.get? row.id = none)
    (place : Nat) (other : Uuid) :
    ({ server with rows := server.rows.take place ++ row :: server.rows.drop place } :
      Server).get? other = if other = row.id then some row else server.get? other := by
  have hsplit : server.rows.find? (fun r => r.id = other) =
      ((server.rows.take place).find? fun r => r.id = other).or
        ((server.rows.drop place).find? fun r => r.id = other) := by
    rw [← List.find?_append, take_append_drop]
  simp only [Server.get?, List.find?_append, List.find?_cons] at hfree ⊢
  by_cases h : other = row.id
  · subst h
    rw [hsplit, or_eq_none_iff] at hfree
    simp [hfree.1]
  · have hne : ¬ row.id = other := fun hid => h hid.symm
    simp [hne, decide_false, if_neg h, hsplit]

theorem advances_insert {server} (hfree : server.get? row.id = none) (place) : Advances server
      { server with rows := server.rows.take place ++ row :: server.rows.drop place } := by
  have hsame : ∀ id status, server.statusOf id = some status →
      ({ server with rows := server.rows.take place ++ row :: server.rows.drop place } :
        Server).statusOf id = some status := by
    intro id status hid
    rw [Server.statusOf, get?_insert hfree]
    by_cases h : id = row.id
    · subst h
      rw [Server.statusOf, hfree] at hid
      cases hid
    · rwa [if_neg h]
  constructor
  · rintro id ⟨status, hid, hne⟩
    exact ⟨status, hsame id status hid, hne⟩
  · rintro id ⟨status, hid, hterminal⟩
    exact ⟨status, hsame id status hid, hterminal⟩

def Server.OneRow (server : Server) : Prop := (server.rows.map TaskLaunch.id).Nodup

theorem move_ids (server : Server) (id) (status) :
    (server.move id status).rows.map TaskLaunch.id = server.rows.map TaskLaunch.id := by
  simp only [Server.move, List.map_map]
  refine map_congr_left ?_
  intro row _
  by_cases h : row.id = id
  · simp [h, TaskLaunch.moved]
  · simp [h]

theorem pull_ids (server : Server) (overdue) :
    (server.pull overdue).1.rows.map TaskLaunch.id = server.rows.map TaskLaunch.id := by
  simp only [Server.pull]
  generalize List.filter _ (List.map TaskLaunch.id _) = ids
  induction ids generalizing server with
  | nil => rfl
  | cons id ids ih => exact (ih _).trans (move_ids _ _ _)

theorem get?_of_mem {server : Server} (hone : server.OneRow)
    (hmem : row ∈ server.rows) : server.get? row.id = some row := by
  cases hget : server.get? row.id with
  | none =>
    have := List.find?_eq_none.mp hget row hmem
    simp at this
  | some other =>
    have hid := get?_id hget
    rw [inj_on_of_nodup_map hone (List.mem_of_find?_eq_some hget) hmem hid]

theorem oneRow_insert {server : Server} (hone : server.OneRow)
    (hfree : server.get? row.id = none) (place : Nat) :
    ({ server with rows := server.rows.take place ++ row :: server.rows.drop place } :
      Server).OneRow := by
  have hperm : (server.rows.take place ++ row :: server.rows.drop place).Perm
      (row :: server.rows) := by
    have h := @List.perm_middle _ row (server.rows.take place) (server.rows.drop place)
    rwa [take_append_drop] at h
  have hnodup : ((row :: server.rows).map TaskLaunch.id).Nodup := by
    rw [map_cons, nodup_cons]
    refine ⟨?_, hone⟩
    intro hmem
    obtain ⟨other, hother, hid⟩ := List.mem_map.mp hmem
    have := List.find?_eq_none.mp hfree other hother
    simp [hid] at this
  exact (hperm.map TaskLaunch.id).nodup_iff.mpr hnodup

theorem mem_pull {server : Server} {overdue : List Uuid} (h : launch ∈ (server.pull overdue).2) :
    launch ∈ (server.pull overdue).1.rows ∧ launch.status.isTerminal = false := by
  simp only [Server.pull] at h ⊢
  obtain ⟨hrow, hkeep⟩ := mem_filter.mp (mem_of_mem_take h)
  simp only [Bool.and_eq_true, Bool.not_eq_true'] at hkeep
  exact ⟨hrow, hkeep.1.1.2⟩

/-! ## What a poll accepts -/

theorem sent_report (reporter : LaunchReporter) (launch status reasonCode) (id) :
    (reporter.report launch status reasonCode).sent id =
      if id = launch.id then reporter.sent id + 1 else reporter.sent id := by
  by_cases h : id = launch.id
  · subst h
    simp [LaunchReporter.report]
  · simp [LaunchReporter.report, h]

theorem sent_le_report (reporter : LaunchReporter) (launch : TaskLaunch)
    (status : TaskLaunchStatus) (reasonCode : TaskLaunchReasonCode) (id : Uuid) :
    reporter.sent id ≤ (reporter.report launch status reasonCode).sent id := by
  rw [sent_report]
  split <;> omega

/-- What the loops of a poll do to the counts and the decisions. -/
structure Grows (a b : Pass) : Prop where
  sent : ∀ id, a.reporter.sent id ≤ b.reporter.sent id
  decided : ∀ id, b.decided id = none → a.decided id = none

theorem Grows.refl (a) : Grows a a := ⟨fun _ => Nat.le_refl _, fun _ h => h⟩

theorem Grows.trans {a b c} (hab : Grows a b) (hbc : Grows b c) : Grows a c :=
  ⟨fun id => Nat.le_trans (hab.sent id) (hbc.sent id),
    fun id h => hab.decided id (hbc.decided id h)⟩

theorem grows_answer (pass)
    (launch status reasonCode) : Grows pass (pass.answer launch status reasonCode) := by
  constructor
  · exact sent_le_report pass.reporter launch status reasonCode
  · intro id h
    by_cases hid : id = launch.id
    · subst hid
      simp [Pass.answer] at h
    · simpa [Pass.answer, hid] using h

theorem grows_offer (policy) (pass) (launch) : Grows pass (pass.offer policy launch) := by
  simp only [Pass.offer]
  split
  · exact .refl pass
  · split
    · have h := grows_answer pass launch .accepted (policy.evaluate launch pass.active)
      exact ⟨h.sent, h.decided⟩
    · exact grows_answer pass launch _ _

theorem grows_orphans (isExecuting) (pending : List TaskLaunch) (pass) :
    Grows pass (pending.foldl (Pass.failOrphan isExecuting) pass) := by
  induction pending generalizing pass with
  | nil => exact .refl pass
  | cons launch pending ih =>
    refine Grows.trans ?_ (ih _)
    rw [Pass.failOrphan]
    split
    · exact .refl pass
    · exact grows_answer pass launch _ _

theorem mem_accepted {policy} {pending : List TaskLaunch} {pass : Pass}
    (h : launch ∈ (pending.foldl (Pass.offer policy) pass).accepted) :
    launch ∈ pass.accepted ∨
      launch ∈ pending ∧ launch.status = .requested ∧ pass.decided launch.id = none ∧
        0 < (pending.foldl (Pass.offer policy) pass).reporter.sent launch.id := by
  induction pending generalizing pass with
  | nil => exact .inl h
  | cons first pending ih =>
    rcases ih h with hmem | ⟨hmem, hstatus, hdecided, hsent⟩
    · have hgrow : ∀ pass : Pass, Grows pass (pending.foldl (Pass.offer policy) pass) := by
        clear ih h hmem
        induction pending with
        | nil => exact Grows.refl
        | cons l pending ih => exact fun pass => (grows_offer policy pass l).trans (ih _)
      have hcount := (hgrow (pass.offer policy first)).sent launch.id
      simp only [Pass.offer] at hmem
      split at hmem
      · exact .inl hmem
      rename_i hnew
      simp only [Bool.or_eq_true, decide_eq_true_eq, not_or, not_not, Bool.not_eq_true,
        isSome_eq_false_iff, isNone_iff_eq_none] at hnew
      split at hmem
      · rename_i hreason
        rcases mem_append.mp hmem with hold | hadded
        · exact .inl hold
        rw [mem_singleton] at hadded
        subst hadded
        refine .inr ⟨.head _, hnew.1, hnew.2, ?_⟩
        have hone : 0 < (pass.offer policy launch).reporter.sent launch.id := by
          simp [Pass.offer, hnew, hreason, Pass.answer, sent_report]
        exact Nat.lt_of_lt_of_le hone hcount
      · exact .inl hmem
    · exact .inr ⟨.tail _ hmem, hstatus, (grows_offer policy pass first).decided _ hdecided, hsent⟩

theorem grows_offers (policy) (pending : List TaskLaunch) (pass) :
    Grows pass (pending.foldl (Pass.offer policy) pass) := by
  induction pending generalizing pass with
  | nil => exact .refl pass
  | cons launch pending ih => exact (grows_offer policy pass launch).trans (ih _)

/-- **What a poll accepts**: pulled launches that are requested and of
which no decision is kept. -/
theorem mem_poll_accepted {puller : LaunchPuller} {reporter isExecuting policy pending}
    (h : launch ∈ (puller.poll reporter isExecuting policy pending).accepted) :
    launch ∈ pending ∧ launch.status = .requested ∧ puller.prune pending launch.id = none ∧
      0 < (puller.poll reporter isExecuting policy pending).reporter.sent launch.id := by
  have hopened : ∀ id, (puller.opened reporter isExecuting pending).decided id = none →
      puller.prune pending id = none := by
    simp only [LaunchPuller.opened]
    cases puller.reconciled with
    | true => exact fun _ h => h
    | false => exact (grows_orphans isExecuting pending _).decided
  rcases mem_accepted h with hold | ⟨hmem, hstatus, hdecided, hsent⟩
  · rw [accepted_opened] at hold
    cases hold
  · exact ⟨hmem, hstatus, hopened _ hdecided, hsent⟩

theorem sent_poll (puller : LaunchPuller) (reporter : LaunchReporter) (isExecuting policy pending)
    (id) :
    reporter.sent id ≤ (puller.poll reporter isExecuting policy pending).reporter.sent id := by
  refine Nat.le_trans ?_ ((grows_offers policy pending _).sent id)
  simp only [LaunchPuller.opened]
  cases puller.reconciled with
  | true => exact Nat.le_refl _
  | false =>
    simp only [Bool.false_eq_true, if_false]
    exact (grows_orphans isExecuting pending
      { reporter := reporter, decided := puller.prune pending, active := 0,
        accepted := [] }).sent id

/-! ## One launch -/

section One

variable {X : Uuid} {s t : State} {p q : Process} {id : Uuid}

/-- What a process that runs tells of the launch `X`. -/
structure ProcessOnce (X : Uuid) (server : Server) (started : List Uuid) (p : Process) : Prop where
  oneTask : p.OneTask
  taskSent : ∀ task ∈ p.tasks, task.launch.id = X → 0 < p.sent X
  accepted : X ∈ p.heartbeat.acceptedIds → 0 < p.sent X ∧ ∀ task ∈ p.tasks, task.launch.id ≠ X
  /-- A harness about to start is the first one of its launch. -/
  issued : ∀ task ∈ p.tasks, task.launch.id = X → task.phase = .issued →
    X ∉ started ∧ server.Past X
  /-- What may still start after a harness of `X` gets no credential. -/
  again : X ∈ started → X ∈ earlyIds p.tasks ∨ X ∈ p.heartbeat.acceptedIds → server.Closed X
  pulled : ∀ pending, p.heartbeat = .pulled pending → ∀ launch ∈ pending, launch.id = X →
    launch.status = .requested → p.sent X = 0 → X ∉ started

structure Once (X : Uuid) (s : State) : Prop where
  oneRow : s.server.OneRow
  count : s.started.count X ≤ 1
  past : X ∈ s.started → s.server.Past X
  process : ∀ p, s.process = some p → ProcessOnce X s.server s.started p

theorem once_initial : Once X State.initial where
  oneRow := nodup_nil
  count := Nat.zero_le 1
  past h := absurd h not_mem_nil
  process p hp := absurd hp (by simp [State.initial])

theorem processOnce_fresh (server) (started) : ProcessOnce X server started .fresh where
  oneTask := nodup_nil
  taskSent _ h := absurd h not_mem_nil
  accepted h := absurd h not_mem_nil
  issued _ h := absurd h not_mem_nil
  again _ h := by
    rcases h with h | h <;> cases h
  pulled _ h := by cases h

theorem issues_past {server : Server} (h : server.issues X = true) : server.Past X := by
  obtain ⟨row, hrow, howned⟩ := (Option.any_eq_true _ _).mp h
  refine ⟨row.status, by rw [Server.statusOf, hrow]; rfl, ?_⟩
  intro hrequested
  rw [hrequested] at howned
  exact absurd howned (by decide)

theorem issues_open {server : Server} (h : server.issues X = true) : ¬ server.Closed X := by
  obtain ⟨row, hrow, howned⟩ := (Option.any_eq_true _ _).mp h
  rintro ⟨status, hstatus, hterminal⟩
  rw [Server.statusOf, hrow] at hstatus
  cases hstatus
  revert howned hterminal
  cases row.status <;> decide

theorem closed_of_past {server : Server} (h : server.Past X) (hissues : server.issues X = false) :
    server.Closed X := by
  obtain ⟨status, hstatus, hne⟩ := h
  refine ⟨status, hstatus, ?_⟩
  rw [Server.statusOf] at hstatus
  obtain ⟨row, hrow, rfl⟩ := map_eq_some_iff.mp hstatus
  have howned : row.status ∉ ownedStatuses := by
    simpa [Server.issues, hrow] using hissues
  revert howned hne
  cases row.status <;> decide

theorem ProcessOnce.server {a b started} (h : ProcessOnce X a started p)
    (hab : Advances a b) : ProcessOnce X b started p where
  oneTask := h.oneTask
  taskSent := h.taskSent
  accepted := h.accepted
  issued task hmem hid hphase :=
    ⟨(h.issued task hmem hid hphase).1, hab.past X (h.issued task hmem hid hphase).2⟩
  again hstarted hearly := hab.closed X (h.again hstarted hearly)
  pulled := h.pulled

theorem mem_earlyIds {tasks} :
    id ∈ earlyIds tasks ↔ ∃ task ∈ tasks, task.phase.early = true ∧ task.launch.id = id := by
  simp [earlyIds, and_assoc]

/-- The tasks of a process, after a step that submits none: what is early
was early, and what is about to start was, or gets a credential now. -/
structure TasksFrom (X : Uuid) (server : Server) (p q : Process) : Prop where
  oneTask : p.OneTask → q.OneTask
  heartbeat : q.heartbeat = p.heartbeat
  sent : p.sent X ≤ q.sent X
  task : ∀ b ∈ q.tasks, b.launch.id = X → ∃ a ∈ p.tasks, a.launch.id = X ∧
    (b.phase.early = true → a.phase.early = true) ∧
    (b.phase = .issued → a.phase = .issued ∨ a.phase.early = true ∧ server.issues X = true)

theorem ProcessOnce.tasks {server started} (h : ProcessOnce X server started p)
    (hpq : TasksFrom X server p q) :
    ProcessOnce X server started q where
  oneTask := hpq.oneTask h.oneTask
  taskSent b hmem hid := by
    obtain ⟨a, ha, haid, -⟩ := hpq.task b hmem hid
    exact Nat.lt_of_lt_of_le (h.taskSent a ha haid) hpq.sent
  accepted hmem := by
    rw [hpq.heartbeat] at hmem
    refine ⟨Nat.lt_of_lt_of_le (h.accepted hmem).1 hpq.sent, ?_⟩
    intro b hb hid
    obtain ⟨a, ha, haid, -⟩ := hpq.task b hb hid
    exact (h.accepted hmem).2 a ha haid
  issued b hmem hid hphase := by
    obtain ⟨a, ha, haid, -, hissued⟩ := hpq.task b hmem hid
    rcases hissued hphase with hold | ⟨hearly, hissues⟩
    · exact h.issued a ha haid hold
    · refine ⟨?_, issues_past hissues⟩
      intro hstarted
      exact issues_open hissues (h.again hstarted (.inl (mem_earlyIds.mpr ⟨a, ha, hearly, haid⟩)))
  again hstarted hearly := by
    refine h.again hstarted ?_
    rcases hearly with hearly | hmem
    · obtain ⟨b, hb, hphase, hid⟩ := mem_earlyIds.mp hearly
      obtain ⟨a, ha, haid, hold, -⟩ := hpq.task b hb hid
      exact .inl (mem_earlyIds.mpr ⟨a, ha, hold hphase, haid⟩)
    · rw [hpq.heartbeat] at hmem
      exact .inr hmem
  pulled pending hpulled launch hmem hid hstatus hsent := by
    rw [hpq.heartbeat] at hpulled
    exact h.pulled pending hpulled launch hmem hid hstatus
      (Nat.le_zero.mp (Nat.le_trans hpq.sent (Nat.le_of_eq hsent)))

theorem TasksFrom.dropTask {server stopped sent} (hsent : p.sent X ≤ sent X) :
    TasksFrom X server p { p.dropTask id with stopped := stopped, sent := sent } where
  oneTask h := h.dropTask
  heartbeat := rfl
  sent := hsent
  task b hb hid := ⟨b, (mem_dropTask.mp hb).1, hid, fun h => h, .inl⟩

theorem TasksFrom.setPhase {server task phase alive sent} (hsent : p.sent X ≤ sent X)
    (hone : p.OneTask) (hmem : task ∈ p.tasks)
    (hearly : phase.early = true → task.phase.early = true)
    (hissued : phase = .issued → task.phase.early = true ∧ server.issues task.launch.id = true) :
    TasksFrom X server p { p.setPhase task.launch.id phase with alive := alive, sent := sent } where
  oneTask h := h.setPhase phase
  heartbeat := rfl
  sent := hsent
  task b hb hid := by
    rcases mem_setPhase.mp hb with ⟨-, hb⟩ | ⟨old, hold, holdid, rfl⟩
    · exact ⟨b, hb, hid, fun h => h, .inl⟩
    obtain rfl := hone.unique hold hmem holdid
    refine ⟨old, hold, hid, hearly, ?_⟩
    intro hphase
    obtain ⟨h₁, h₂⟩ := hissued hphase
    rw [← hid]
    exact .inr ⟨h₁, h₂⟩

theorem Next.early {server a b} (h : Next server id a b) : a.early = true := by
  cases h <;> rfl

theorem Next.issues {server a} (h : Next server id a .issued) : server.issues id = true := by
  cases h with
  | issued hissues => exact hissues

theorem Ran.once {task} (h : Ran s p task t) (hone : p.OneTask) (hmem : task ∈ p.tasks) :
    t.server = s.server ∧ ∃ q, t.process = some q ∧ TasksFrom X s.server p q ∧
      (t.started = s.started ∨ task.phase = .issued ∧ t.started = task.launch.id :: s.started ∧
          ∀ b ∈ q.tasks, b.launch.id = task.launch.id → b.phase = .waiting) := by
  have hreport : ∀ status reasonCode,
      p.sent X ≤ ((s.reporter p).report task.launch status reasonCode).sent X :=
    fun status reasonCode => sent_le_report (s.reporter p) task.launch status reasonCode X
  have hsame : p.sent X ≤ p.sent X := Nat.le_refl _
  cases h with
  | ended stopped hsub hsup hwhy => exact ⟨rfl, _, rfl, TasksFrom.dropTask hsame, .inl rfl⟩
  | failed reasonCode hphase =>
    exact ⟨rfl, _, rfl, TasksFrom.dropTask (hreport .failed reasonCode), .inl rfl⟩
  | moved phase hnext =>
    refine ⟨rfl, _, rfl, TasksFrom.setPhase hsame hone hmem ?_ ?_, .inl rfl⟩
    · exact fun _ => hnext.early
    · intro hissued
      subst hissued
      exact ⟨hnext.early, hnext.issues⟩
  | prepares hphase =>
    refine ⟨rfl, _, rfl, TasksFrom.setPhase (hreport .preparing .none) hone hmem ?_ ?_, .inl rfl⟩
    · intro _
      rw [hphase]
      rfl
    · intro hissued
      cases hissued
  | starts hphase =>
    refine ⟨rfl, _, rfl, TasksFrom.setPhase (hreport .running .none) hone hmem ?_ ?_,
      .inr ⟨hphase, rfl, ?_⟩⟩
    · intro hearly
      cases hearly
    · intro hissued
      cases hissued
    · intro b hb hid
      rcases mem_setPhase.mp hb with ⟨hne, -⟩ | ⟨old, -, -, rfl⟩
      · exact absurd hid hne
      · rfl
  | unstartable hphase reasonCode =>
    refine ⟨rfl, _, rfl, TasksFrom.dropTask ?_, .inl rfl⟩
    exact Nat.le_trans (hreport .running .none) (sent_le_report _ task.launch .failed reasonCode X)
  | finished hphase status hstatus reasonCode =>
    exact ⟨rfl, _, rfl, TasksFrom.dropTask (hreport status reasonCode), .inl rfl⟩

theorem Once.ran {task} (h : Once X s) (hp : s.process = some p) (hmem : task ∈ p.tasks)
    (hran : Ran s p task t) : Once X t := by
  have hpo := h.process p hp
  obtain ⟨hserver, q, hq, hfrom, hstarted⟩ := @Ran.once X s t p task hran hpo.oneTask hmem
  have hqo := hpo.tasks hfrom
  by_cases hfirst : t.started = X :: s.started
  · rcases hstarted with hsame | ⟨hissued, hcons, hwaiting⟩
    · rw [hfirst] at hsame
      exact absurd (congrArg List.length hsame) (by simp)
    have hid : task.launch.id = X := by
      rw [hfirst] at hcons
      exact (List.cons.inj hcons).1.symm
    obtain ⟨hnew, hpast⟩ := hpo.issued task hmem hid hissued
    rw [hid] at hwaiting
    refine ⟨hserver ▸ h.oneRow, ?_, fun _ => hserver ▸ hpast, ?_⟩
    · have hcount : (X :: s.started).count X = 1 := by
        rw [count_cons_self, count_eq_zero.mpr hnew]
      rw [hfirst]
      omega
    intro q' hq'
    obtain rfl := some.inj (hq.symm.trans hq')
    rw [hserver]
    refine ⟨hqo.oneTask, hqo.taskSent, hqo.accepted, ?_, ?_, ?_⟩
    · intro b hb hbid hphase
      rw [hwaiting b hb hbid] at hphase
      cases hphase
    · intro _ hearly
      rcases hearly with hearly | haccepted
      · obtain ⟨b, hb, hphase, hbid⟩ := mem_earlyIds.mp hearly
        rw [hwaiting b hb hbid] at hphase
        cases hphase
      · rw [hfrom.heartbeat] at haccepted
        exact absurd hid ((hpo.accepted haccepted).2 task hmem)
    · intro pending _ launch _ _ _ hsent
      have hpos := Nat.lt_of_lt_of_le (hpo.taskSent task hmem hid) hfrom.sent
      omega
  · have hcount : t.started.count X = s.started.count X ∧ (X ∈ t.started ↔ X ∈ s.started) := by
      rcases hstarted with hsame | ⟨-, hcons, -⟩
      · rw [hsame]
        exact ⟨rfl, Iff.rfl⟩
      · have hne : task.launch.id ≠ X := by
          rintro rfl
          exact hfirst hcons
        rw [hcons]
        exact ⟨count_cons_of_ne hne, by simp [hne.symm]⟩
    refine ⟨hserver ▸ h.oneRow, hcount.1 ▸ h.count, ?_, ?_⟩
    · intro hmem
      exact hserver ▸ h.past (hcount.2.mp hmem)
    intro q' hq'
    obtain rfl := some.inj (hq.symm.trans hq')
    rw [hserver]
    refine ⟨hqo.oneTask, hqo.taskSent, hqo.accepted, ?_, ?_, ?_⟩
    · intro b hb hbid hphase
      obtain ⟨hnew, hpast⟩ := hqo.issued b hb hbid hphase
      exact ⟨fun hmem => hnew (hcount.2.mp hmem), hpast⟩
    · intro hmem
      exact hqo.again (hcount.2.mp hmem)
    · intro pending hpulled launch hmem hid hstatus hsent hnew
      exact hqo.pulled pending hpulled launch hmem hid hstatus hsent (hcount.2.mp hnew)

theorem Once.server (h : Once X s) {server} (hone : server.OneRow)
    (hadv : Advances s.server server) : Once X { s with server := server } where
  oneRow := hone
  count := h.count
  past hmem := hadv.past X (h.past hmem)
  process p hp := (h.process p hp).server hadv

theorem Once.processes (h : Once X s) {server outbox} (hserver : server = s.server)
    (hq : ProcessOnce X s.server s.started q) :
    Once X { s with server := server, outbox := outbox, process := some q } := by
  subst hserver
  refine ⟨h.oneRow, h.count, h.past, ?_⟩
  intro q' hq'
  cases hq'
  exact hq

end One

/-! ## Polls that take no launch twice -/

/-- The poll offers only launches the process has reported nothing of, or
that it does not run and the server does not have as owned. -/
def offersFresh (s : State) : Act → Bool
  | .decide _ =>
    match s.process with
    | none => true
    | some p =>
      match p.heartbeat with
      | .pulled pending =>
        pending.all fun launch =>
          launch.status ≠ .requested || (p.puller.prune pending launch.id).isSome ||
            p.sent launch.id = 0 ||
            (!p.owns launch.id && !s.server.issues launch.id)
      | _ => true
  | _ => true

def Fresh (s : State) (a : Act) : Prop := offersFresh s a = true

instance (s : State) (a : Act) : Decidable (Fresh s a) := inferInstanceAs (Decidable (_ = true))

theorem Once.pull {X s p} (h : Once X s) (hp : s.process = some p) (overdue) : Once X
      { s with
        server := (s.server.pull overdue).1
        process := some { p with heartbeat := .pulled (s.server.pull overdue).2 } } := by
  have hadv := advances_pull s.server overdue
  have hone : (s.server.pull overdue).1.OneRow := by
    rw [Server.OneRow, pull_ids]
    exact h.oneRow
  have hpo := (h.process p hp).server hadv
  refine ⟨hone, h.count, fun hmem => hadv.past X (h.past hmem), ?_⟩
  intro q hq
  cases hq
  refine ⟨hpo.oneTask, hpo.taskSent, fun hmem => absurd hmem not_mem_nil, hpo.issued, ?_, ?_⟩
  · intro hstarted hearly
    rcases hearly with hearly | hmem
    · exact hpo.again hstarted (.inl hearly)
    · cases hmem
  intro pending hpulled launch hmem hid hstatus _ hstarted
  obtain rfl := Heartbeat.pulled.inj hpulled
  -- the page shows the launch as the server has it: no harness was started yet
  obtain ⟨status, hs, hne⟩ := hadv.past X (h.past hstarted)
  have hget := get?_of_mem hone (mem_pull hmem).1
  rw [hid] at hget
  simp only [Server.statusOf, hget, map_some, Option.some.injEq] at hs
  exact hne (hs.symm.trans hstatus)

theorem Once.decide {X s p pending policy} (h : Once X s) (hp : s.process = some p)
    (hpulled : p.heartbeat = .pulled pending) (hfresh : Fresh s (.decide policy))
    {decided} : ProcessOnce X s.server s.started
      { p with
        puller := { decided := decided, reconciled := true }
        heartbeat := .accepted (p.puller.poll (s.reporter p) p.owns policy pending).accepted
        sent := (p.puller.poll (s.reporter p) p.owns policy pending).reporter.sent } := by
  have hpo := h.process p hp
  have hsent := sent_poll p.puller (s.reporter p) p.owns policy pending X
  have haccepted : X ∈ (p.puller.poll (s.reporter p) p.owns policy pending).accepted.map
      TaskLaunch.id →
      0 < (p.puller.poll (s.reporter p) p.owns policy pending).reporter.sent X ∧
        (∀ task ∈ p.tasks, task.launch.id ≠ X) ∧ (X ∈ s.started → s.server.Closed X) := by
    intro hmem
    obtain ⟨launch, hlaunch, rfl⟩ := List.mem_map.mp hmem
    obtain ⟨hin, hstatus, hpruned, hpos⟩ := mem_poll_accepted hlaunch
    refine ⟨hpos, ?_⟩
    simp only [Fresh, offersFresh, hp, hpulled, List.all_eq_true] at hfresh
    have hoffer := hfresh launch hin
    simp only [hstatus, hpruned, ne_eq, not_true_eq_false, decide_false, isSome_none,
      Bool.false_or, Bool.or_eq_true, decide_eq_true_eq, Bool.and_eq_true,
      Bool.not_eq_true'] at hoffer
    rcases hoffer with hzero | ⟨hfree, hissues⟩
    · refine ⟨?_, ?_⟩
      · intro task htask hid
        have := hpo.taskSent task htask hid
        omega
      · intro hstarted
        exact absurd hstarted (hpo.pulled pending hpulled launch hin rfl hstatus hzero)
    · refine ⟨?_, fun hstarted => closed_of_past (h.past hstarted) hissues⟩
      intro task htask hid
      rw [owns_iff.mpr ⟨task, htask, hid⟩] at hfree
      cases hfree
  refine ⟨hpo.oneTask, ?_, ?_, hpo.issued, ?_, ?_⟩
  · intro task hmem hid
    exact Nat.lt_of_lt_of_le (hpo.taskSent task hmem hid) hsent
  · intro hmem
    exact ⟨(haccepted hmem).1, (haccepted hmem).2.1⟩
  · intro hstarted hearly
    rcases hearly with hearly | hmem
    · exact hpo.again hstarted (.inl hearly)
    · exact (haccepted hmem).2.2 hstarted
  · intro pending' hpulled'
    cases hpulled'

theorem Once.submit {X : Uuid} {s : State} {p : Process} {launches : List TaskLaunch}
    (h : ProcessOnce X s.server s.started p) (haccepted : p.heartbeat = .accepted launches) :
    ProcessOnce X s.server s.started
      { launches.foldl Process.submit p with heartbeat := .idle } := by
  obtain ⟨-, hsent, -, -⟩ := @submitAll_rest p launches
  have hids : p.heartbeat.acceptedIds = launches.map TaskLaunch.id := by
    rw [haccepted]
    rfl
  have hnew : ∀ task ∈ (launches.foldl Process.submit p).tasks, task.launch.id = X →
      task ∈ p.tasks ∨ task.phase = .resolving ∧ X ∈ p.heartbeat.acceptedIds := by
    intro task hmem hid
    rcases mem_submitAll hmem with hold | ⟨hphase, hlaunch, -⟩
    · exact .inl hold
    · rw [hids, ← hid]
      exact .inr ⟨hphase, List.mem_map_of_mem hlaunch⟩
  refine ⟨h.oneTask.submitAll launches, ?_, fun hmem => absurd hmem not_mem_nil, ?_, ?_, ?_⟩
  · intro task hmem hid
    simp only [hsent]
    rcases hnew task hmem hid with hold | ⟨-, hin⟩
    · exact h.taskSent task hold hid
    · exact (h.accepted hin).1
  · intro task hmem hid hphase
    rcases hnew task hmem hid with hold | ⟨hresolving, -⟩
    · exact h.issued task hold hid hphase
    · rw [hresolving] at hphase
      cases hphase
  · intro hstarted hearly
    rcases hearly with hearly | hmem
    · obtain ⟨task, hmem, hphase, hid⟩ := mem_earlyIds.mp hearly
      rcases hnew task hmem hid with hold | ⟨-, hin⟩
      · exact h.again hstarted (.inl (mem_earlyIds.mpr ⟨task, hold, hphase, hid⟩))
      · exact h.again hstarted (.inr hin)
    · cases hmem
  · intro pending hpulled
    cases hpulled

theorem oneRow_move {server : Server} (h : server.OneRow) (id : Uuid)
    (status : TaskLaunchStatus) : (server.move id status).OneRow := by
  rw [Server.OneRow, move_ids]
  exact h

theorem oneRow_close {server server' : Server}
    (hone : server.OneRow) (h : server.close id status = some server') : server'.OneRow := by
  obtain ⟨row, -, -, rfl⟩ := close_some h
  exact oneRow_move hone id status

theorem once_step {X s t a} (h : Once X s) (hfresh : Fresh s a)
    (hstep : step s a = some t) : Once X t := by
  cases step_cases hstep with
  | created row hfree _ place =>
    exact h.server (oneRow_insert h.oneRow hfree place) (advances_insert hfree place)
  | cancelled id server hclose | expired id server hclose =>
    exact h.server (oneRow_close h.oneRow hclose) (advances_close rfl hclose)
  | advertised => exact h.server h.oneRow ⟨fun _ h => h, fun _ h => h⟩
  | booted => exact h.processes rfl (processOnce_fresh _ _)
  | crashed => exact ⟨h.oneRow, h.count, h.past, fun p hp => absurd hp (by simp)⟩
  | pulled p hp _ overdue => exact h.pull hp overdue
  | decided p hp pending hpulled policy pass hpass =>
    subst hpass
    exact h.processes rfl (h.decide hp hpulled hfresh)
  | submitted p hp launches haccepted =>
    exact h.processes rfl (Once.submit (h.process p hp) haccepted)
  | sent _ _ _ report _ server hserver =>
    have hnext : Once X { s with server := server } := by
      cases hserver with
      | unchanged => exact h
      | committed _ _ hok =>
        have hadv := advances_report hok
        obtain ⟨row, -, -, -, rfl⟩ := report_ok hok
        exact h.server (oneRow_move h.oneRow _ _) hadv
    exact ⟨hnext.oneRow, hnext.count, hnext.past, hnext.process⟩
  | ran p hp task hmem _ _ hran => exact h.ran hp hmem hran
  | observed p hp task hmem =>
    refine h.processes rfl ((h.process p hp).tasks ?_)
    have hone := (h.process p hp).oneTask
    have hfrom := @TasksFrom.setPhase X p s.server task .unwinding p.alive p.sent
      (Nat.le_refl _) hone hmem (fun h => by cases h) (fun h => by cases h)
    exact ⟨hfrom.oneTask, hfrom.heartbeat, hfrom.sent, hfrom.task⟩
  | exited p hp id =>
    have hpo := h.process p hp
    exact h.processes rfl
      ⟨hpo.oneTask, hpo.taskSent, hpo.accepted, hpo.issued, hpo.again, hpo.pulled⟩

/-- **At most one start of an attempt**: in every run whose polls offer
no launch that this process has reported on and either runs or finds
owned on the server, the harness of a launch is started at most once,
over all the processes of the run. -/
theorem launch_started_once {s : State} {as : List Act} (h : Run step Fresh State.initial as s)
    (id : Uuid) : s.started.count id ≤ 1 := by
  have hinv : Once id s :=
    @Run.invariant _ _ step Fresh (Once id)
      (fun hs hfresh hstep => once_step hs hfresh hstep) _ _ _ h once_initial
  exact hinv.count

/-- One launch is accepted and started. -/
theorem launch_started_once_sample :
    ∃ s : State, s.started = [⟨"a"⟩] ∧ s.started.count ⟨"a"⟩ ≤ 1 := by
  have hrun : (execWithin step Fresh State.initial
      ([.advertise true true, .boot] ++ acceptRun "a" 1 ++ startRun "a")).any
      (fun s => s.started = [⟨"a"⟩]) = true := by decide +kernel
  obtain ⟨s, hs, hstarted⟩ := Run.of_any hrun
  exact ⟨s, of_decide_eq_true hstarted, launch_started_once hs ⟨"a"⟩⟩

/-- Nineteen launches of a project the machine does not run, and one it runs. -/
def crowd : List Act :=
  ((List.range 19).map fun i =>
    .create ⟨String.ofList (List.replicate (i + 1) 'f')⟩ ⟨"q"⟩ "cli" none i) ++
  [.create ⟨"x"⟩ ⟨"p"⟩ "cli" none 19]

def pollRun : List Act := [.pull [], .decide (samplePolicy 3)]

/-- What the task of a launch does up to its harness. -/
def harnessRun : List Act := List.replicate 7 (.run ⟨"x"⟩ .done)

/-- Launch "x" is accepted. A launch that commits late with an earlier `created_at` moves it out of
the page of the next poll, which forgets its decision; later it is back and accepted again, as its
`accepted` is still in the outbox. The first task runs to its end; then the second is submitted. -/
theorem launch_started_twice : ∃ (as : List Act) (s : State), Run step Free State.initial as s ∧
      s.started.count ⟨"x"⟩ = 2 := by
  have hrun : (execWithin step Free State.initial
      ([.advertise true true, .boot] ++ crowd ++ pollRun ++ [.submit] ++
        [.create ⟨"g"⟩ ⟨"q"⟩ "cli" none 0] ++ pollRun ++ [.submit] ++
        [.cancel ⟨"f"⟩] ++ pollRun ++
        [.send ⟨"x"⟩ 1 .answered] ++ harnessRun ++
        [.exit ⟨"x"⟩, .run ⟨"x"⟩ (.result .succeeded .none), .submit] ++ harnessRun)).any
      (fun s => s.started.count ⟨"x"⟩ = 2) = true := by decide +kernel
  obtain ⟨s, hs, hcount⟩ := Run.of_any hrun
  exact ⟨_, s, hs, of_decide_eq_true hcount⟩

end StudioOS.Daemon
