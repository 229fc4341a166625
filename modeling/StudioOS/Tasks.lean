import StudioOS.Authz
import StudioOS.Library.Runs

/-!
# Tasks — claims, updates and releases of one task

`update_task`, `claim_task` and `release_task` of `services/tasks.py`. A call
authorizes on the row it was handed, reads the row again under its lock, and
commits the row with its event; the session of a call that raises is closed.
-/

namespace StudioOS.Tasks

open Authz Function Runs

/-! ## Rows -/

structure Task where
  projectId : Uuid
  title : String
  description : Option String
  status : String
  claimedByMachineId : Option Uuid
  claimedByAgentId : Option Uuid
  version : Int

/-- Who holds a task: a machine, and the agent it was claimed for. -/
def Task.holder (task : Task) : Option (Uuid × Option Uuid) :=
  task.claimedByMachineId.map (·, task.claimedByAgentId)

structure TaskUpdate where
  title : Option String
  description : Option String
  status : Option String

inductive EventType where
  | taskUpdated
  | taskStarted
  | taskBlocked
  | taskCompleted

inductive Actor where
  | agent (id : Uuid)
  | user (id : Uuid)

/-- The event that is staged with a write of the task. -/
structure TaskEvent where
  eventType : EventType
  actor : Actor
  machineId : Uuid
  status : String
  version : Int
  transition : String
  previousStatus : Option String

/-! ## Calls -/

inductive Op where
  | update (taskIn : TaskUpdate) (expectedVersion : Int)
  | claim (machineId : Uuid) (agentId : Option Uuid)
  | release (expectedVersion : Option Int)

def Op.expectedVersion : Op → Option Int
  | .update _ expectedVersion => some expectedVersion
  | .claim _ _ => none
  | .release expectedVersion => expectedVersion

structure Call where
  principal : Principal
  op : Op

/-- `_STATUS_EVENT_TYPES.get(status, TASK_UPDATED)`. -/
def statusEventType (status : String) : EventType :=
  if status = "in_progress" then .taskStarted
  else if status = "blocked" then .taskBlocked
  else if status = "completed" then .taskCompleted
  else .taskUpdated

def versionConflict (task : Task) : HttpError :=
  { status := 409
    detail := [("error_code", "version_conflict"), ("server_version", toString task.version)] }

def alreadyClaimed : HttpError := { status := 409, detail := [("error_code", "already_claimed")] }

/-- `event_actor`; `agents` is the table of the agents. -/
def eventActor (agents : Uuid → Option Agent) (principal : Principal) (agentId : Option Uuid) :
    Actor :=
  match agentId with
  | some id =>
    if ownsAgent (agents id) principal.machine then .agent id
    else .user principal.machine.ownerUserId
  | none => .user principal.machine.ownerUserId

/-- What a call checks before it reads the row again. -/
def Call.authorize (call : Call) (task : Task) : Except HttpError Unit := do
  ensureProjectAccess call.principal task.projectId "write"
  match call.op with
  | .update _ _ => ensureCanWrite call.principal "task"
  | .claim _ _ => ensureCanWrite call.principal "task"
  | .release _ => ensureMachineOwned call.principal task.claimedByMachineId "task" "release"

/-- The event of `_commit_with_event`. -/
def Call.event (agents : Uuid → Option Agent) (call : Call) (task : Task) (eventType : EventType)
    (transition : String) (previousStatus : Option String) (agentId : Option Uuid) : TaskEvent :=
  { eventType, actor := eventActor agents call.principal agentId
    machineId := call.principal.machine.id, status := task.status, version := task.version
    transition, previousStatus }

/-- What a call does with the row under its lock: the row and the event it
commits, or nothing where its own holder is in progress. -/
def Call.decide (agents : Uuid → Option Agent) (call : Call) (task : Task) :
    Except HttpError (Option (Task × TaskEvent)) :=
  match call.op with
  | .update taskIn expectedVersion =>
    if task.version ≠ expectedVersion then .error (versionConflict task)
    else
      let updated :=
        { task with
          title := taskIn.title.getD task.title
          description := taskIn.description.or task.description
          status := taskIn.status.getD task.status
          version := task.version + 1 }
      let eventType :=
        if updated.status ≠ task.status then statusEventType updated.status else .taskUpdated
      .ok (some (updated, call.event agents updated eventType "updated" (some task.status)
        task.claimedByAgentId))
  | .claim machineId agentId =>
    if task.claimedByMachineId ≠ none ∧
        (task.claimedByMachineId ≠ some machineId ∨ task.claimedByAgentId ≠ agentId) then
      .error alreadyClaimed
    else if task.status = "in_progress" ∧ task.claimedByMachineId = some machineId ∧
        task.claimedByAgentId = agentId then .ok none
    else
      let claimed :=
        { task with
          claimedByMachineId := some machineId
          claimedByAgentId := agentId
          status := "in_progress"
          version := task.version + 1 }
      .ok (some (claimed, call.event agents claimed .taskStarted "claimed" (some task.status)
        agentId))
  | .release expectedVersion =>
    match ensureMachineOwned call.principal task.claimedByMachineId "task" "release" with
    | .error error => .error error
    | .ok _ =>
      if expectedVersion.any (· ≠ task.version) then .error (versionConflict task)
      else
        let released :=
          { task with
            claimedByMachineId := none
            claimedByAgentId := none
            version := task.version + 1 }
        .ok (some (released, call.event agents released .taskUpdated "released" none
          task.claimedByAgentId))

/-- The call is a claim whose own holder has the task in progress. -/
def Call.Held (call : Call) (task : Task) : Prop :=
  task.status = "in_progress" ∧
    ∃ machineId agentId, call.op = .claim machineId agentId ∧
      task.holder = some (machineId, agentId)

/-- What a call does to the holder: a release of the holder's machine or of an
admin frees the task, and any other call leaves a task that is held as it is. -/
def Call.Moves (call : Call) (task written : Task) : Prop :=
  (∃ v, call.op = .release v ∧ written.holder = none ∧ (call.principal.role = .admin ∨
    ∀ holder, task.holder = some holder → holder.1 = call.principal.machine.id)) ∨
  ((∀ holder, task.holder = some holder → written.holder = some holder) ∧
    ∀ machineId agentId, call.op = .claim machineId agentId →
      written.holder = some (machineId, agentId))

theorem ensureMachineOwned_ok {principal owner resource action u}
    (h : ensureMachineOwned principal owner resource action = .ok u) :
    principal.role = .admin ∨ ∀ machineId, owner = some machineId →
      machineId = principal.machine.id := by
  by_cases hadmin : principal.role = .admin
  · exact .inl hadmin
  · right
    rintro machineId rfl
    simp only [ensureMachineOwned, if_neg hadmin] at h
    obtain ⟨_, -, h⟩ := bind_ok h
    by_contra hne
    simp [hne] at h

variable {agents : Uuid → Option Agent} {call : Call} {task : Task}

theorem decide_none (h : call.decide agents task = .ok none) : call.Held task := by
  unfold Call.decide at h
  split at h
  · split at h <;> cases h
  · rename_i machineId agentId hop
    split at h
    · cases h
    split at h
    · rename_i hown
      refine ⟨hown.1, machineId, agentId, hop, ?_⟩
      simp [Task.holder, hown.2.1, hown.2.2]
    · cases h
  · split at h
    · cases h
    · split at h <;> cases h

theorem holder_eq_some {holder} (h : task.holder = some holder) :
    task.claimedByMachineId = some holder.1 ∧ task.claimedByAgentId = holder.2 := by
  simp only [Task.holder, Option.map_eq_some_iff] at h
  obtain ⟨machineId, hmachine, rfl⟩ := h
  exact ⟨hmachine, rfl⟩

theorem decide_some {written event} (h : call.decide agents task = .ok (some (written, event))) :
    written.version = task.version + 1 ∧ event.version = written.version ∧
      call.Moves task written ∧ ∀ v, call.op.expectedVersion = some v → v = task.version := by
  unfold Call.decide at h
  split at h
  · rename_i taskIn expectedVersion hop
    split at h
    · cases h
    · rename_i hversion
      cases h
      refine ⟨rfl, rfl, .inr ⟨fun _ h => h, fun _ _ hclaim => ?_⟩, fun v hv => ?_⟩
      · rw [hop] at hclaim
        cases hclaim
      · rw [hop] at hv
        cases hv
        exact (not_not.mp hversion).symm
  · rename_i machineId agentId hop
    split at h
    · cases h
    rename_i hfree
    split at h
    · cases h
    · cases h
      refine ⟨rfl, rfl, .inr ⟨fun holder hholder => ?_, fun _ _ hclaim => ?_⟩, fun v hv => ?_⟩
      · -- The holder of the row is the claim's own.
        obtain ⟨hmachine, hagent⟩ := holder_eq_some hholder
        simp only [hmachine, hagent, ne_eq, reduceCtorEq, not_false_eq_true, true_and,
          Option.some.injEq, not_or, not_not] at hfree
        simp [Task.holder, ← hfree.1, ← hfree.2]
      · rw [hop] at hclaim
        cases hclaim
        rfl
      · rw [hop] at hv
        cases hv
  · rename_i expectedVersion hop
    split at h
    · cases h
    · rename_i howned
      split at h
      · cases h
      · rename_i hversion
        cases h
        refine ⟨rfl, rfl, .inl ⟨_, hop, rfl, (ensureMachineOwned_ok howned).imp_right ?_⟩, ?_⟩
        · intro h holder hholder
          exact h holder.1 (holder_eq_some hholder).1
        · intro v hv
          rw [hop] at hv
          cases hv
          simpa using hversion

/-! ## Concurrent calls -/

inductive Phase where
  | authorized
  /-- The row, as it was read under the lock. -/
  | locked (task : Task)
  | done (result : Except HttpError (Option TaskEvent))

structure State where
  task : Task
  events : List TaskEvent
  lock : Option Nat
  calls : Nat → Option (Call × Phase)

inductive Act where
  /-- A call authorizes on the row it was handed, which may be an old one. -/
  | begin (c : Nat) (call : Call) (handed : Task)
  /-- It gets the lock and reads the row. -/
  | refresh (c : Nat)
  /-- It raises, or commits. -/
  | finish (c : Nat)
  /-- It is cancelled, or its process ends. -/
  | fail (c : Nat)

def State.initial (task : Task) : State :=
  { task, events := [], lock := none, calls := fun _ => none }

def State.set (s : State) (c : Nat) (call : Call) (phase : Phase) : State :=
  { s with calls := update s.calls c (some (call, phase)) }

/-- What a call leaves when its transaction ends. -/
def State.close (s : State) (c : Nat) (call : Call)
    (result : Except HttpError (Option TaskEvent)) : State :=
  { s.set c call (.done result) with lock := none }

def step (agents : Uuid → Option Agent) (s : State) : Act → Option State
  | .begin c call handed =>
    match s.calls c, call.authorize handed with
    | none, .ok _ => some (s.set c call .authorized)
    | none, .error error => some (s.set c call (.done (.error error)))
    | _, _ => none
  | .refresh c =>
    match s.calls c, s.lock with
    | some (call, .authorized), none =>
      some { s.set c call (.locked s.task) with lock := some c }
    | _, _ => none
  | .finish c =>
    match s.calls c with
    | some (call, .locked task) =>
      match call.decide agents task with
      | .error error => some (s.close c call (.error error))
      | .ok none => some (s.close c call (.ok none))
      | .ok (some (written, event)) =>
        some
          { s.close c call (.ok (some event)) with
            task := written, events := s.events ++ [event] }
    | _ => none
  | .fail c =>
    match s.calls c with
    | some (call, .locked _) => some (s.close c call (.error { status := 500, detail := [] }))
    | _ => none

/-- The event of a call that succeeded; a claim may have none. -/
def Phase.success : Phase → Option (Option TaskEvent)
  | .done (.ok event) => some event
  | _ => none

/-- A call that succeeded, with its event. -/
def State.succeeded (s : State) (c : Nat) : Option (Call × Option TaskEvent) :=
  (s.calls c).bind fun (call, phase) => phase.success.map (call, ·)

/-- The row that is locked is the row that was read. -/
def State.Consistent (s : State) : Prop :=
  ∀ c call task, s.calls c = some (call, .locked task) → task = s.task ∧ s.lock = some c

variable {s t : State} {a : Act} {c c' : Nat} {phase : Phase}

theorem State.Consistent.set (hs : s.Consistent)
    (hphase : ∀ task, phase ≠ .locked task) : (s.set c call phase).Consistent := by
  intro c' call' task' hc'
  rcases update_some hc' with ⟨-, heq⟩ | ⟨-, hc'⟩
  · cases heq
    exact absurd rfl (hphase task')
  · exact hs c' call' task' hc'

theorem State.Consistent.close {result} (hs : s.Consistent)
    (hc : s.calls c = some (call, .locked task))
    (h : t.calls = (s.close c call result).calls) : t.Consistent := by
  intro c' call' task' hc'
  rw [h] at hc'
  rcases update_some hc' with ⟨-, heq⟩ | ⟨hne, hc'⟩
  · cases heq
  · have hlock := (hs c' call' task' hc').2
    rw [(hs c call task hc).2] at hlock
    exact absurd (Option.some.inj hlock).symm hne

/-- The call succeeded between the two states. -/
def Succeeds (s t : State) (c : Nat) (call : Call) (event : Option TaskEvent) : Prop :=
  s.succeeded c = none ∧ t.succeeded c = some (call, event)

/-- A step as a success: of a claim that finds its own holder in progress, of
a call that writes, or of no call. -/
inductive Success (s t : State) (a : Act) : Prop where
  | none (task : t.task = s.task) (events : t.events = s.events)
      (succeeded : t.succeeded = s.succeeded)
  | held {c : Nat} {call} (act : a = .finish c) (own : call.Held s.task) (task : t.task = s.task)
      (events : t.events = s.events) (fresh : s.succeeded c = .none)
      (succeeded : t.succeeded = update s.succeeded c (some (call, .none)))
  | wrote {c call event} (act : a = .finish c) (version : t.task.version = s.task.version + 1)
      (moves : call.Moves s.task t.task)
      (expected : ∀ v, call.op.expectedVersion = some v → v = s.task.version)
      (events : t.events = s.events ++ [event]) (fresh : s.succeeded c = .none)
      (succeeded : t.succeeded = update s.succeeded c (some (call, some event)))

theorem succeeded_set (h : t.calls = update s.calls c (some (call, phase))) :
    t.succeeded = update s.succeeded c (phase.success.map (call, ·)) := by
  funext c'
  by_cases hc : c' = c
  · subst hc
    simp [State.succeeded, h]
  · simp [State.succeeded, h, hc]

theorem succeeded_failed (h : t.calls = update s.calls c (some (call, phase)))
    (hphase : phase.success = none) (hc : s.succeeded c = none) : t.succeeded = s.succeeded := by
  rw [succeeded_set h, hphase, ← update_eq_self c s.succeeded, hc]
  simp

theorem succeeded_ok {event} (h : t.calls = update s.calls c (some (call, .done (.ok event)))) :
    t.succeeded = update s.succeeded c (some (call, event)) := succeeded_set h

/-- **What a step does.** -/
theorem step_success (hs : s.Consistent) (h : step agents s a = some t) :
    t.Consistent ∧ Success s t a := by
  have hnone : ∀ {c call task}, s.calls c = some (call, .locked task) → s.succeeded c = none :=
    fun hc => by simp [State.succeeded, hc, Phase.success]
  cases a with
  | begin c call handed =>
    simp only [step] at h
    split at h
    · rename_i hc _
      cases h
      exact ⟨hs.set nofun, .none rfl rfl (succeeded_failed rfl rfl (by simp [State.succeeded, hc]))⟩
    · rename_i hc _
      cases h
      exact ⟨hs.set nofun, .none rfl rfl (succeeded_failed rfl rfl (by simp [State.succeeded, hc]))⟩
    · cases h
  | refresh c =>
    simp only [step] at h
    split at h
    · rename_i hc hlock
      cases h
      refine ⟨fun c' call' task' hc' => ?_, .none rfl rfl (succeeded_failed rfl rfl ?_)⟩
      · rcases update_some hc' with ⟨rfl, heq⟩ | ⟨-, hc'⟩
        · cases heq
          exact ⟨rfl, rfl⟩
        · -- No other call is under the lock, since it was free.
          have hother := (hs c' call' task' hc').2
          rw [hlock] at hother
          cases hother
      · simp [State.succeeded, hc, Phase.success]
    · cases h
  | fail c =>
    simp only [step] at h
    split at h
    · rename_i hc
      cases h
      exact ⟨hs.close hc rfl, .none rfl rfl (succeeded_failed rfl rfl (hnone hc))⟩
    · cases h
  | finish c =>
    simp only [step] at h
    split at h
    · rename_i hc
      obtain ⟨rfl, -⟩ := hs _ _ _ hc
      split at h
      · cases h
        exact ⟨hs.close hc rfl, .none rfl rfl (succeeded_failed rfl rfl (hnone hc))⟩
      · rename_i hdecide
        cases h
        exact ⟨hs.close hc rfl,
          .held rfl (decide_none hdecide) rfl rfl (hnone hc) (succeeded_ok rfl)⟩
      · rename_i hdecide
        cases h
        obtain ⟨hversion, -, hmoves, hexpected⟩ := decide_some hdecide
        exact ⟨hs.close hc rfl,
          .wrote rfl hversion hmoves hexpected rfl (hnone hc) (succeeded_ok rfl)⟩
    · cases h

/-! ## Runs -/

/-- What holds between two states of a run. -/
structure Since (s t : State) : Prop where
  kept : ∀ c, s.succeeded c = none ∨ t.succeeded c = s.succeeded c
  version : s.task.version ≤ t.task.version
  unwritten : t.task.version = s.task.version → t.task = s.task ∧ t.events = s.events ∧
    ∀ c call event, Succeeds s t c call event → event = none ∧ call.Held s.task
  claims : (∃ c call event v, Succeeds s t c call event ∧ call.op = .release v) ∨
    ∀ c call event machineId agentId, Succeeds s t c call event →
      call.op = .claim machineId agentId → t.task.holder = some (machineId, agentId)

theorem Since.refl (s) : Since s s := by
  have hnot : ∀ {c call event}, ¬ Succeeds s s c call event :=
    fun ⟨hnone, hsome⟩ => by simp [hnone] at hsome
  exact
    { kept := fun _ => .inr rfl
      version := Int.le_refl _
      unwritten := fun _ => ⟨rfl, rfl, fun _ _ _ h => absurd h hnot⟩
      claims := .inr fun _ _ _ _ _ h => absurd h hnot }

section Step

variable {u : State}

/-- A success between the states is that of the last step, or older. -/
theorem succeeds_step {event d call' event'} (h : u.succeeded = update t.succeeded c (some
    (call, event)))
    (hd : Succeeds s u d call' event') :
    (call' = call ∧ event' = event) ∨ Succeeds s t d call' event' := by
  obtain ⟨hs, hu⟩ := hd
  rw [h] at hu
  by_cases hc : d = c
  · subst hc
    rw [update_self] at hu
    cases hu
    exact .inl ⟨rfl, rfl⟩
  · rw [update_of_ne hc] at hu
    exact .inr ⟨hs, hu⟩

theorem succeeds_mono {event d call' event'} (hfresh : t.succeeded c = none)
    (h : u.succeeded = update t.succeeded c (some (call, event)))
    (hd : Succeeds s t d call' event') : Succeeds s u d call' event' := by
  refine ⟨hd.1, ?_⟩
  rw [h, update_of_ne]
  · exact hd.2
  · rintro rfl
    exact absurd (hfresh.symm.trans hd.2) nofun

theorem Since.kept_step {event} (hst : Since s t) (hfresh : t.succeeded c = none)
    (h : u.succeeded = update t.succeeded c (some (call, event))) (d) :
    s.succeeded d = none ∨ u.succeeded d = s.succeeded d := by
  by_cases hd : d = c
  · subst hd
    exact .inl ((hst.kept d).elim id fun hd => hd ▸ hfresh)
  · rw [h, update_of_ne hd]
    exact hst.kept d

theorem Since.step (hst : Since s t) (h : Success t u a) : Since s u := by
  cases h with
  | none task events succeeded =>
    obtain ⟨hkept, hversion, hunwritten, hclaims⟩ := hst
    unfold Succeeds at hunwritten hclaims
    rw [← task, ← events, ← succeeded] at *
    exact ⟨hkept, hversion, hunwritten, hclaims⟩
  | held act own task events fresh succeeded =>
    refine ⟨hst.kept_step fresh succeeded, task ▸ hst.version, fun hversion => ?_, ?_⟩
    · rw [task] at hversion
      obtain ⟨htask, hevents, hnew⟩ := hst.unwritten hversion
      refine ⟨task.trans htask, events.trans hevents, fun d call' event' hd => ?_⟩
      rcases succeeds_step succeeded hd with ⟨rfl, rfl⟩ | hd
      · exact ⟨rfl, htask ▸ own⟩
      · exact hnew d call' event' hd
    · refine hst.claims.imp (fun ⟨d, call', event', v, hd, hop⟩ =>
        ⟨d, call', event', v, succeeds_mono fresh succeeded hd, hop⟩)
        fun hclaims d call' event' machineId agentId hd hop => ?_
      rw [task]
      rcases succeeds_step succeeded hd with ⟨rfl, rfl⟩ | hd
      · obtain ⟨-, machineId', agentId', hop', hholder⟩ := own
        rw [hop] at hop'
        cases hop'
        exact hholder
      · exact hclaims d call' event' machineId agentId hd hop
  | @wrote c call event act version moves expected events fresh succeeded =>
    have hle := hst.version
    refine ⟨hst.kept_step fresh succeeded, by omega, fun hversion => by omega, ?_⟩
    obtain ⟨v, hop, -, -⟩ | ⟨hkeeps, hclaim⟩ := moves
    · refine .inl ⟨c, call, event, v, ⟨?_, by rw [succeeded, update_self]⟩, hop⟩
      exact (hst.kept c).elim id fun hc => hc ▸ fresh
    · refine hst.claims.imp (fun ⟨d, call', event', v, hd, hop⟩ =>
        ⟨d, call', event', v, succeeds_mono fresh succeeded hd, hop⟩)
        fun hclaims d call' event' machineId agentId hd hop => ?_
      rcases succeeds_step succeeded hd with ⟨rfl, -⟩ | hd
      · exact hclaim machineId agentId hop
      · exact hkeeps _ (hclaims d call' event' machineId agentId hd hop)

end Step

theorem run_since {as} (h : Run (step agents) Free s as t) (hs : s.Consistent) :
    t.Consistent ∧ Since s t :=
  h.invariant (I := fun t => t.Consistent ∧ Since s t)
    (fun ht _ hstep => (step_success ht.1 hstep).imp_right ht.2.step)
    ⟨hs, .refl s⟩

/-- What holds of the calls from a state on. -/
structure Linearizable (agents : Uuid → Option Agent) (s : State) : Prop where
  /-- A call writes once, with one event, unless it finds its own claim. -/
  once : ∀ a t c call event, step agents s a = some t → Succeeds s t c call event →
    (event = none ∧ call.Held s.task ∧ t.task = s.task ∧ t.events = s.events) ∨
      ∃ staged, event = some staged ∧ t.task.version = s.task.version + 1 ∧
        t.events = s.events ++ [staged]
  /-- Only a release takes a task from its holder. -/
  holder : ∀ a t holder, step agents s a = some t → s.task.holder = some holder →
    t.task.holder ≠ some holder → t.task.holder = none ∧
      ∃ c call event v, Succeeds s t c call event ∧ call.op = .release v ∧
        (call.principal.role = .admin ∨ holder.1 = call.principal.machine.id)
  /-- Claims that succeed have one holder, as long as no release does. -/
  claims : ∀ as t, Run (step agents) Free s as t →
    (∃ c call event v, Succeeds s t c call event ∧ call.op = .release v) ∨
      ∀ c call event machineId agentId c' call' event' machineId' agentId',
        Succeeds s t c call event → call.op = .claim machineId agentId →
          Succeeds s t c' call' event' → call'.op = .claim machineId' agentId' →
            machineId = machineId' ∧ agentId = agentId'
  /-- No call has written since the version that a call expects was read. -/
  expected : ∀ as t a u c call event, Run (step agents) Free s as t →
    step agents t a = some u → Succeeds t u c call event →
      call.op.expectedVersion = some s.task.version → t.task = s.task ∧ t.events = s.events ∧
        ∀ c' call' event', Succeeds s t c' call' event' → event' = none ∧ call'.Held s.task

theorem succeeds_cases {event : Option TaskEvent} (h : Success s t a)
    (hc : Succeeds s t c call event) :
    (event = none ∧ call.Held s.task ∧ t.task = s.task ∧ t.events = s.events) ∨
      ∃ staged, event = some staged ∧ t.task.version = s.task.version + 1 ∧
        t.events = s.events ++ [staged] ∧
          ∀ v, call.op.expectedVersion = some v → v = s.task.version := by
  have hnot : ¬ Succeeds s s c call event := fun hc => absurd (hc.1.symm.trans hc.2) nofun
  cases h with
  | none task events succeeded => exact absurd ⟨hc.1, succeeded ▸ hc.2⟩ hnot
  | held act own task events fresh succeeded =>
    obtain ⟨rfl, rfl⟩ := (succeeds_step succeeded hc).resolve_right hnot
    exact .inl ⟨rfl, own, task, events⟩
  | wrote act version moves expected events fresh succeeded =>
    obtain ⟨rfl, rfl⟩ := (succeeds_step succeeded hc).resolve_right hnot
    exact .inr ⟨_, rfl, version, events, expected⟩

/-- **Claims, updates and releases of a task are linearizable.** -/
theorem calls_linearizable {as : List Act}
    (h : Run (step agents) Free (.initial task) as s) : Linearizable agents s := by
  have hinitial : (State.initial task).Consistent := by
    intro c call task hc
    cases hc
  have hs : s.Consistent := (run_since h hinitial).1
  refine ⟨fun a t c call event hstep hc => ?_, fun a t holder hstep hheld hnot => ?_,
    fun as t hrun => ?_, fun as t a u c call event hrun hstep hc hv => ?_⟩
  · obtain hheld | ⟨staged, hevent, hversion, hevents, -⟩ :=
      succeeds_cases (step_success hs hstep).2 hc
    · exact .inl hheld
    · exact .inr ⟨staged, hevent, hversion, hevents⟩
  · cases (step_success hs hstep).2 with
    | none task events succeeded => exact absurd (task ▸ hheld) hnot
    | held act own task events fresh succeeded => exact absurd (task ▸ hheld) hnot
    | @wrote c call event act version moves expected events fresh succeeded =>
      obtain ⟨v, hop, hfree, howner⟩ | ⟨hkeeps, -⟩ := moves
      · exact ⟨hfree, c, call, event, v, ⟨fresh, by rw [succeeded, update_self]⟩, hop,
          howner.imp_right fun howner => howner holder hheld⟩
      · exact absurd (hkeeps holder hheld) hnot
  · refine (run_since hrun hs).2.claims.imp_right fun hclaims => ?_
    intro c call event machineId agentId c' call' event' machineId' agentId' hc hop hc' hop'
    have hholder := hclaims c call event machineId agentId hc hop
    rw [hclaims c' call' event' machineId' agentId' hc' hop'] at hholder
    cases hholder
    exact ⟨rfl, rfl⟩
  · obtain ⟨ht, hsince⟩ := run_since hrun hs
    refine hsince.unwritten ?_
    obtain ⟨-, ⟨-, _, _, hop, -⟩, -⟩ | ⟨-, -, -, -, hexpected⟩ :=
      succeeds_cases (step_success ht hstep).2 hc
    · rw [hop] at hv
      cases hv
    · exact (hexpected _ hv).symm

/-! ## Sample runs -/

def holder (machineId : String) : Principal :=
  { machine := ⟨⟨machineId⟩, ⟨"u"⟩⟩, role := .developer, projectScope := .allProjects }

def freeTask : Task :=
  { projectId := ⟨"p"⟩, title := "t", description := none, status := "created"
    claimedByMachineId := none, claimedByAgentId := none, version := 1 }

def claimBy (machineId : String) : Call := ⟨holder machineId, .claim ⟨machineId⟩ none⟩

def claimed : List Act := [.begin 0 (claimBy "a") freeTask, .refresh 0, .finish 0]

theorem calls_linearizable_claimed :
    ∃ s, Run (step fun _ => none) Free (.initial freeTask) claimed s ∧ s.task.version = 2 ∧
      Linearizable (fun _ => none) s := by
  have hrun : ((execWithin (step fun _ => none) Free (.initial freeTask) claimed).any fun s =>
      s.task.version = 2) = true := by decide +kernel
  obtain ⟨s, hs, hversion⟩ := Run.of_any hrun
  exact ⟨s, hs, of_decide_eq_true hversion, calls_linearizable hs⟩

/-- The update expects the version that was read before the claim of the own
holder succeeded, and succeeds; two claims of a free task succeed, with a
release between them. -/
theorem claim_unseen_and_claims_apart :
    ((execWithin (step fun _ => none) Free (.initial freeTask) (claimed ++
      [.begin 1 (claimBy "a") freeTask,
        .begin 2 ⟨holder "b", .update ⟨none, none, none⟩ 2⟩ freeTask, .refresh 1, .finish 1,
        .refresh 2, .finish 2])).any fun s =>
      (s.succeeded 1).isSome && (s.succeeded 2).isSome) = true ∧
    ((execWithin (step fun _ => none) Free (.initial freeTask)
      (.begin 1 (claimBy "b") freeTask :: claimed ++
        [.begin 2 ⟨holder "a", .release none⟩ freeTask, .refresh 2, .finish 2, .refresh 1,
          .finish 1])).any fun s => (s.succeeded 0).isSome && (s.succeeded 1).isSome) = true := by
  decide +kernel

end StudioOS.Tasks
