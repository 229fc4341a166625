import Mathlib.Data.List.Perm.Subperm
import StudioOS.Daemon.Steps

/-!
# Daemon — Capacity

How many launches a process of the daemon is busy with: the harnesses it
started that have not exited, and the launches it accepted whose harness it
has not started.
-/

namespace StudioOS.Daemon

open List Option Runs
open Launches (TaskLaunchStatus TaskLaunchReasonCode)

/-- The harness is not started yet, and may be. -/
def Phase.early : Phase → Bool
  | .waiting => false
  | .unwinding => false
  | _ => true

def earlyIds (tasks : List Task) : List Uuid :=
  (tasks.filter fun task => task.phase.early).map fun task => task.launch.id

/-- The launches the last pass accepted that are not submitted yet. -/
def Heartbeat.acceptedIds : Heartbeat → List Uuid
  | .accepted launches => launches.map TaskLaunch.id
  | _ => []

/-- The harnesses that have not exited, and the accepted launches whose
harness is not started. -/
def Process.busy (p : Process) : List Uuid :=
  p.alive ++ (earlyIds p.tasks ++ p.heartbeat.acceptedIds)

variable {p q : Process} {id : Uuid} {m : Nat} {s t : State} {policy : LaunchPolicy}
  {busy : List Uuid}

theorem earlyIds_setPhase {tasks phase}
    (h : phase.early = true → ∀ task ∈ tasks, task.launch.id = id → task.phase.early = true) :
    (earlyIds (tasks.map fun task =>
      if task.launch.id = id then { task with phase := phase } else task)).Sublist
        (earlyIds tasks) := by
  induction tasks with
  | nil => exact List.Sublist.refl _
  | cons task tasks ih =>
    have hrest := ih fun hearly task hmem => h hearly task (.tail _ hmem)
    simp only [earlyIds] at hrest ⊢
    by_cases hid : task.launch.id = id
    · by_cases hphase : phase.early = true
      · have hold := h hphase task (.head _) hid
        simpa [hid, hphase, hold] using hrest
      · by_cases hold : task.phase.early = true
        · simpa [hid, hphase, hold] using hrest.cons _
        · simpa [hid, hphase, hold] using hrest
    · by_cases hold : task.phase.early = true <;> simpa [hid, hold] using hrest

theorem earlyIds_dropTask : (earlyIds (p.dropTask id).tasks).Sublist (earlyIds p.tasks) :=
  (filter_sublist.filter _).map _

theorem earlyIds_leave {task phase} (hmem : task ∈ p.tasks) (hid : task.launch.id = id)
    (hold : task.phase.early = true) (hphase : phase.early = false) :
    (id :: earlyIds (p.setPhase id phase).tasks).Subperm (earlyIds p.tasks) := by
  have hin : id ∈ earlyIds p.tasks := List.mem_map.mpr ⟨task, mem_filter.mpr ⟨hmem, hold⟩, hid⟩
  have hout : id ∉ earlyIds (p.setPhase id phase).tasks := by
    simp only [earlyIds, List.mem_map, mem_filter, not_exists, not_and]
    rintro other ⟨hother, hearly⟩ hoid
    rcases mem_setPhase.mp hother with ⟨hne, -⟩ | ⟨old, -, -, rfl⟩
    · exact hne hoid
    · simp only at hearly
      rw [hphase] at hearly
      cases hearly
  have hsub : (earlyIds (p.setPhase id phase).tasks).Sublist (earlyIds p.tasks) :=
    earlyIds_setPhase fun h => by rw [hphase] at h; cases h
  have hrest : (earlyIds (p.setPhase id phase).tasks).Sublist ((earlyIds p.tasks).erase id) := by
    rw [← erase_of_not_mem hout]
    exact hsub.erase id
  exact ((subperm_cons id).mpr hrest.subperm).trans (perm_cons_erase hin).symm.subperm

theorem earlyIds_submitAll (launches : List TaskLaunch) :
    (earlyIds (launches.foldl Process.submit p).tasks).Sublist
      (earlyIds p.tasks ++ launches.map TaskLaunch.id) := by
  induction launches generalizing p with
  | nil => simp
  | cons launch launches ih =>
    refine (@ih (p.submit launch)).trans ?_
    rw [map_cons, ← singleton_append, ← append_assoc]
    refine List.Sublist.append ?_ (List.Sublist.refl _)
    rw [Process.submit]
    split
    · exact sublist_append_left _ _
    · simp [earlyIds, Phase.early]

/-- The process is busy with no more than before, and its decisions stand. -/
structure Shrinks (p q : Process) : Prop where
  puller : q.puller = p.puller
  oneTask : p.OneTask → q.OneTask
  busy : p.OneTask → q.busy.Subperm p.busy

theorem Shrinks.of_tasks {tasks stopped sent}
    (hone : p.OneTask → (tasks.map fun task => task.launch.id).Nodup)
    (hearly : p.OneTask → (earlyIds tasks).Sublist (earlyIds p.tasks)) :
    Shrinks p { p with tasks := tasks, stopped := stopped, sent := sent } where
  puller := rfl
  oneTask := hone
  busy h := by
    have := ((hearly h).append (List.Sublist.refl p.heartbeat.acceptedIds)).subperm
    exact (subperm_append_left p.alive).mpr this

theorem Shrinks.setPhase {task phase stopped sent} (hmem : task ∈ p.tasks)
    (h : phase.early = true → task.phase.early = true) : Shrinks p
      { (p.setPhase task.launch.id phase) with stopped := stopped, sent := sent } := by
  refine Shrinks.of_tasks (fun hone => hone.setPhase phase) ?_
  intro hone
  refine earlyIds_setPhase ?_
  intro hphase other hother hid
  rw [hone.unique hother hmem hid]
  exact h hphase

theorem Shrinks.dropTask {stopped sent} :
    Shrinks p { (p.dropTask id) with stopped := stopped, sent := sent } :=
  Shrinks.of_tasks (fun hone => hone.dropTask) fun _ => earlyIds_dropTask

theorem Ran.shrinks {task} (hmem : task ∈ p.tasks) (h : Ran s p task t) :
    ∃ q, t.process = some q ∧ Shrinks p q := by
  cases h with
  | ended | failed => exact ⟨_, rfl, Shrinks.dropTask⟩
  | moved phase hnext =>
    refine ⟨_, rfl, Shrinks.setPhase hmem ?_⟩
    intro _
    generalize task.phase = old at hnext
    cases hnext <;> rfl
  | prepares hphase => exact ⟨_, rfl, Shrinks.setPhase hmem fun _ => by rw [hphase]; rfl⟩
  | starts hphase =>
    refine ⟨_, rfl, rfl, fun hone => hone.setPhase _, ?_⟩
    intro _
    -- the launch moves from the early tasks to the harnesses
    have hleave := @earlyIds_leave p task.launch.id task .waiting hmem rfl
      (by rw [hphase]; rfl) rfl
    have hsub := (subperm_append_left p.alive).mpr
      (hleave.append (List.Subperm.refl p.heartbeat.acceptedIds))
    exact perm_middle.symm.subperm.trans hsub
  | unstartable | finished => exact ⟨_, rfl, Shrinks.dropTask⟩

theorem shrinks_refl : Shrinks p p := ⟨rfl, id, fun _ => List.Subperm.refl _⟩

theorem step_shrinks {a} (hstep : step s a = some t)
    (hdecide : ∀ policy, a ≠ .decide policy) : t.process = none ∨ t.process = some .fresh ∨
      ∃ p q, s.process = some p ∧ t.process = some q ∧ Shrinks p q := by
  have hsame : t.process = s.process → t.process = none ∨ t.process = some .fresh ∨
      ∃ p q, s.process = some p ∧ t.process = some q ∧ Shrinks p q := by
    intro h
    cases hp : s.process with
    | none => exact .inl (h.trans hp)
    | some p => exact .inr (.inr ⟨p, p, rfl, h.trans hp, shrinks_refl⟩)
  cases step_cases hstep with
  | created | cancelled | expired | advertised => exact hsame rfl
  | booted => exact .inr (.inl rfl)
  | crashed => exact .inl rfl
  | decided _ _ _ _ policy => exact absurd rfl (hdecide policy)
  | sent => exact hsame rfl
  | pulled p hp hidle =>
    refine .inr (.inr ⟨p, _, hp, rfl, rfl, id, ?_⟩)
    intro _
    simp only [Process.busy, hidle, Heartbeat.acceptedIds]
    exact List.Subperm.refl _
  | submitted p hp launches haccepted =>
    obtain ⟨hpuller, -, -, halive⟩ := @submitAll_rest p launches
    refine .inr (.inr ⟨p, _, hp, rfl, hpuller, fun h => h.submitAll launches, ?_⟩)
    intro _
    simp only [Process.busy, haccepted, Heartbeat.acceptedIds, append_nil, halive]
    exact (subperm_append_left p.alive).mpr (earlyIds_submitAll launches).subperm
  | ran p hp task hmem outcome _ hran =>
    obtain ⟨q, hq, hshrinks⟩ := hran.shrinks hmem
    exact .inr (.inr ⟨p, q, hp, hq, hshrinks⟩)
  | observed p hp task hmem =>
    exact .inr (.inr ⟨p, _, hp, rfl, Shrinks.setPhase hmem fun h => by cases h⟩)
  | exited p hp id =>
    refine .inr (.inr ⟨p, _, hp, rfl, rfl, fun h => h, ?_⟩)
    intro _
    exact (erase_sublist.append (List.Sublist.refl _)).subperm

/-- Of what the process is busy with, and of what the pass accepted, the
pass has counted each once. -/
structure PassInv (busy : List Uuid) (m : Nat) (pass : Pass) : Prop where
  nodup : (busy ++ pass.accepted.map TaskLaunch.id).Nodup
  decided : ∀ id ∈ busy ++ pass.accepted.map TaskLaunch.id, pass.decided id = some .accepted
  counted : busy.length + pass.accepted.length ≤ pass.active
  bounded : busy.length + pass.accepted.length ≤ m

theorem evaluate_none {launch active}
    (h : policy.evaluate launch active = .none) : active < policy.maxConcurrent := by
  by_contra hfull
  have hge : active ≥ policy.maxConcurrent := Nat.le_of_not_lt hfull
  simp only [LaunchPolicy.evaluate, hge, if_true] at h
  split at h
  · cases h
  · split at h
    · cases h
    · split at h
      · cases h
      · split at h <;> cases h

theorem PassInv.offer {pass} (hm : policy.maxConcurrent = m) (h : PassInv busy m pass) (launch) :
    PassInv busy m (pass.offer policy launch) := by
  by_cases hskip : (launch.status ≠ .requested || (pass.decided launch.id).isSome) = true
  · rwa [Pass.offer, if_pos hskip]
  simp only [Bool.or_eq_true, not_or, Bool.not_eq_true, isSome_eq_false_iff,
    isNone_iff_eq_none] at hskip
  have hnew : launch.id ∉ busy ++ pass.accepted.map TaskLaunch.id := by
    intro hmem
    rw [h.decided _ hmem] at hskip
    cases hskip.2
  have hother : ∀ status, ∀ id ∈ busy ++ pass.accepted.map TaskLaunch.id,
      Function.update pass.decided launch.id status id = some .accepted := by
    intro status id hid
    rw [Function.update_of_ne]
    · exact h.decided id hid
    · rintro rfl
      exact hnew hid
  have hgo : (launch.status ≠ .requested || (pass.decided launch.id).isSome) = false := by
    simp [hskip.1, hskip.2, isSome_none]
  rw [Pass.offer, hgo]
  by_cases hreason : policy.evaluate launch pass.active = .none
  · have hlt := evaluate_none hreason
    have hcounted := h.counted
    simp only [Bool.false_eq_true, if_false, hreason, if_true, Pass.answer]
    refine ⟨?_, ?_, ?_, ?_⟩
    · simp only [map_append, map_cons, map_nil, ← append_assoc]
      refine nodup_append.mpr ⟨h.nodup, nodup_singleton _, ?_⟩
      rintro a ha b hb rfl
      rw [mem_singleton] at hb
      exact hnew (hb ▸ ha)
    · intro id hid
      simp only [map_append, map_cons, map_nil, ← append_assoc] at hid
      rcases mem_append.mp hid with hid | hid
      · exact hother _ id hid
      · rw [mem_singleton] at hid
        rw [hid]
        exact Function.update_self ..
    · simp only [length_append, length_singleton]
      omega
    · simp only [length_append, length_singleton]
      omega
  · simp only [Bool.false_eq_true, if_false, hreason, Pass.answer]
    exact ⟨h.nodup, hother _, h.counted, h.bounded⟩

theorem PassInv.offers (hm : policy.maxConcurrent = m) (pending : List TaskLaunch) {pass}
    (h : PassInv busy m pass) : PassInv busy m (pending.foldl (Pass.offer policy) pass) := by
  induction pending generalizing pass with
  | nil => exact h
  | cons launch pending ih => exact ih (h.offer hm launch)

theorem countP_le {pending : List TaskLaunch}
    {decided : Uuid → Option TaskLaunchStatus} (hnodup : busy.Nodup)
    (hlisted : ∀ id ∈ busy, ∃ launch ∈ pending, launch.id = id)
    (hdecided : ∀ id ∈ busy, decided id = some .accepted) :
    busy.length ≤ pending.countP (countsActive decided) := by
  have hsub : busy ⊆ (pending.filter (countsActive decided)).map TaskLaunch.id := by
    intro id hid
    obtain ⟨launch, hmem, rfl⟩ := hlisted id hid
    refine List.mem_map.mpr ⟨launch, mem_filter.mpr ⟨hmem, ?_⟩, rfl⟩
    simp [countsActive, hdecided _ hid]
  have hle := (subperm_of_subset hnodup hsub).length_le
  rwa [length_map, ← countP_eq_length_filter] at hle

/-! ## Every run -/

structure CapacityInv (m : Nat) (p : Process) : Prop where
  oneTask : p.OneTask
  nodup : p.busy.Nodup
  decided : ∀ id ∈ p.busy, p.puller.decided id = some .accepted
  bounded : p.busy.length ≤ m
  /-- Before its first poll a process is not busy. -/
  first : p.puller.reconciled = false → p.busy = []

theorem capacityInv_fresh : CapacityInv m .fresh where
  oneTask := nodup_nil
  nodup := nodup_nil
  decided _ h := absurd h not_mem_nil
  bounded := Nat.zero_le m
  first _ := rfl

theorem CapacityInv.shrinks (h : CapacityInv m p) (hpq : Shrinks p q) : CapacityInv m q where
  oneTask := hpq.oneTask h.oneTask
  nodup := by
    obtain ⟨l, hperm, hsub⟩ := hpq.busy h.oneTask
    exact hperm.nodup_iff.mp (h.nodup.sublist hsub)
  decided id hid := by
    rw [hpq.puller]
    exact h.decided id ((hpq.busy h.oneTask).subset hid)
  bounded := Nat.le_trans (hpq.busy h.oneTask).length_le h.bounded
  first hfirst := by
    rw [hpq.puller] at hfirst
    have hle := (hpq.busy h.oneTask).length_le
    rw [h.first hfirst] at hle
    exact length_eq_zero_iff.mp (Nat.le_zero.mp hle)

/-- The policy has the constant bound. -/
def constantBound (m : Nat) : Act → Bool
  | .decide policy => policy.maxConcurrent = m
  | _ => true

/-- The page a poll decides on lists what the process is busy with. -/
def listsBusy (s : State) : Act → Bool
  | .decide _ =>
    match s.process with
    | none => true
    | some p =>
      match p.heartbeat with
      | .pulled pending => p.busy.all fun id => pending.any fun launch => launch.id = id
      | _ => true
  | _ => true

def Constant (m : Nat) (_ : State) (a : Act) : Prop := constantBound m a = true

/-- A step under the bound `m` whose page lists what the process is busy with. -/
def Listed (m : Nat) (s : State) (a : Act) : Prop := (constantBound m a && listsBusy s a) = true

instance (s : State) (a : Act) : Decidable (Constant m s a) :=
  inferInstanceAs (Decidable (_ = true))

instance (s : State) (a : Act) : Decidable (Listed m s a) :=
  inferInstanceAs (Decidable (_ = true))

/-- A poll under the bound `m`, when its page lists what the process is busy with. -/
theorem poll_inv {pending reporter policy} (hm : policy.maxConcurrent = m) (h : CapacityInv m p)
    (hlisted : ∀ id ∈ p.busy, ∃ launch ∈ pending, launch.id = id) :
    PassInv p.busy m (p.puller.poll reporter p.owns policy pending) := by
  refine PassInv.offers hm pending ?_
  have hdecided : ∀ id ∈ p.busy,
      (p.puller.opened reporter p.owns pending).decided id = some .accepted := by
    intro id hid
    cases hreconciled : p.puller.reconciled with
    | false =>
      rw [h.first hreconciled] at hid
      cases hid
    | true =>
      obtain ⟨launch, hmem, rfl⟩ := hlisted id hid
      have hany : (pending.any fun l => l.id = launch.id) = true :=
        List.any_eq_true.mpr ⟨launch, hmem, by simp⟩
      simp only [LaunchPuller.opened, hreconciled, if_true, LaunchPuller.prune, hany]
      exact h.decided _ hid
  have haccepted := accepted_opened p.puller reporter p.owns pending
  have hactive : (p.puller.opened reporter p.owns pending).active =
      pending.countP (countsActive (p.puller.opened reporter p.owns pending).decided) := rfl
  have hle := countP_le h.nodup hlisted hdecided
  rw [← hactive] at hle
  refine ⟨?_, ?_, ?_, ?_⟩
  · simpa [haccepted] using h.nodup
  · intro id hid
    rw [haccepted, map_nil, append_nil] at hid
    exact hdecided id hid
  · simpa [haccepted] using hle
  · simpa [haccepted] using h.bounded

theorem capacityInv_step {a} (h : ∀ p, s.process = some p → CapacityInv m p) (hguard : Listed m s a)
    (hstep : step s a = some t) : ∀ p, t.process = some p → CapacityInv m p := by
  intro q hq
  by_cases hdecide : ∃ policy, a = .decide policy
  · obtain ⟨policy, rfl⟩ := hdecide
    cases step_cases hstep with
    | decided p hp pending hpulled _ pass hpolled =>
      simp only [Listed, constantBound, listsBusy, hp, hpulled, Bool.and_eq_true,
        decide_eq_true_eq, List.all_eq_true, List.any_eq_true] at hguard
      obtain ⟨hm, hlisted⟩ := hguard
      have hpass := @poll_inv p m pending (s.reporter p) policy hm (h p hp) hlisted
      rw [hpolled] at hpass
      cases hq
      have hbusy : p.busy = p.alive ++ earlyIds p.tasks := by
        simp [Process.busy, hpulled, Heartbeat.acceptedIds]
      have hnext : p.alive ++ (earlyIds p.tasks ++ pass.accepted.map TaskLaunch.id) =
          p.busy ++ pass.accepted.map TaskLaunch.id := by
        rw [hbusy, append_assoc]
      refine ⟨(h p hp).oneTask, ?_, ?_, ?_, fun hfirst => absurd hfirst (by simp)⟩
      · simp only [Process.busy, Heartbeat.acceptedIds]
        rw [hnext]
        exact hpass.nodup
      · intro id hid
        simp only [Process.busy, Heartbeat.acceptedIds] at hid
        rw [hnext] at hid
        exact hpass.decided id hid
      · simp only [Process.busy, Heartbeat.acceptedIds]
        rw [hnext, length_append, length_map]
        exact hpass.bounded
  · rcases step_shrinks hstep fun policy ha => hdecide ⟨policy, ha⟩ with
      hnone | hfresh | ⟨p, q', hp, hq', hshrinks⟩
    · rw [hnone] at hq
      cases hq
    · rw [hfresh] at hq
      cases hq
      exact capacityInv_fresh
    · rw [hq'] at hq
      cases hq
      exact (h p hp).shrinks hshrinks

/-- **The capacity of a machine**: in every run under the bound `m` whose
decided pages list what the process is busy with, the harnesses the
process started that have not exited, and the accepted launches whose
harness is not started, are at most `m`. -/
theorem capacity_kept {s : State} {as : List Act} (h : Run step (Listed m) State.initial as s)
    {p : Process} (hp : s.process = some p) : p.busy.length ≤ m := by
  have hinv : ∀ p, s.process = some p → CapacityInv m p :=
    @Run.invariant _ _ step (Listed m) (fun s => ∀ p, s.process = some p → CapacityInv m p)
      (fun hs hguard hstep => capacityInv_step hs hguard hstep) _ _ _ h
      (fun p hp => absurd hp (by simp [State.initial]))
  exact (hinv p hp).bounded

def samplePolicy (m : Nat) : LaunchPolicy :=
  { optIn := true
    projectIds := [⟨"p"⟩]
    allowedHarnesses := ["cli"]
    detectedHarnesses := ["cli"]
    maxConcurrent := m }

/-- A launch of the sample project is requested, pulled and submitted. -/
def acceptRun (id : String) (m : Nat) : List Act :=
  [.create ⟨id⟩ ⟨"p"⟩ "cli" none 0, .pull [], .decide (samplePolicy m), .submit]

/-- Its `accepted` is delivered and its harness started. -/
def startRun (id : String) : List Act :=
  [.send ⟨id⟩ 1 .answered, .run ⟨id⟩ .done, .run ⟨id⟩ .done, .send ⟨id⟩ 2 .answered,
    .run ⟨id⟩ .done, .run ⟨id⟩ .done, .run ⟨id⟩ .done, .run ⟨id⟩ .done, .run ⟨id⟩ .done]

/-- One launch runs under the bound 1. -/
theorem capacity_kept_sample : ∃ (s : State) (p : Process), s.process = some p ∧ p.alive = [⟨"a"⟩] ∧
      p.busy.length ≤ 1 := by
  have hrun : (execWithin step (Listed 1) State.initial
      ([.advertise true true, .boot] ++ acceptRun "a" 1 ++ startRun "a")).any
      (fun s => s.process.any fun p => p.alive = [⟨"a"⟩]) = true := by decide +kernel
  obtain ⟨s, hs, hany⟩ := Run.of_any hrun
  obtain ⟨p, hp, halive⟩ := (Option.any_eq_true _ _).mp hany
  exact ⟨s, p, hp, of_decide_eq_true halive, capacity_kept hs hp⟩

/-- Under the bound 1 a launch is cancelled while its harness runs; the
next poll forgets it and accepts another. -/
theorem capacity_exceeded :
    ∃ (as : List Act) (s : State) (p : Process), Run step (Constant 1) State.initial as s ∧
      s.process = some p ∧ p.alive = [⟨"a"⟩] ∧ p.busy.length = 2 := by
  have hrun : (execWithin step (Constant 1) State.initial
      ([.advertise true true, .boot] ++ acceptRun "a" 1 ++ startRun "a" ++
        [.cancel ⟨"a"⟩] ++ acceptRun "b" 1)).any
      (fun s => s.process.any fun p => p.alive = [⟨"a"⟩] ∧ p.busy.length = 2) = true := by
    decide +kernel
  obtain ⟨s, hs, hany⟩ := Run.of_any hrun
  obtain ⟨p, hp, hbusy⟩ := (Option.any_eq_true _ _).mp hany
  obtain ⟨halive, hlength⟩ := of_decide_eq_true hbusy
  exact ⟨_, s, p, hs, hp, halive, hlength⟩

end StudioOS.Daemon
