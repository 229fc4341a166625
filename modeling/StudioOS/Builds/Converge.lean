import Mathlib
import StudioOS.Builds.Model

/-!
# Builds — the rows converge

In whatever order the runs are processed, a row shows the last one of those with the highest rank,
and each event that some run asks for is there once.
-/

namespace StudioOS.Builds

open List

variable {ι : Type} {env : Env ι} {s s' : State ι} {event : Event ι} {old worker : Worker ι}
  {l : List (Worker ι)} {i : Nat} {runId : Int}

theorem colon_not_mem_digits (n) : ':' ∉ (Nat.repr n).toList := by
  intro hmem
  rw [Nat.toList_repr] at hmem
  have hdigit := Nat.isDigit_of_mem_toDigits (by decide) (by decide) hmem
  revert hdigit
  decide

theorem colon_not_mem_toString (runId : Int) : ':' ∉ (toString runId).toList := by
  cases runId with
  | ofNat n => exact colon_not_mem_digits n
  | negSucc n =>
    show ':' ∉ ("-" ++ Nat.repr (n + 1)).toList
    rw [String.toList_append, mem_append, not_or]
    exact ⟨by decide, colon_not_mem_digits (n + 1)⟩

theorem EventType.value_inj {t t' : EventType} (h : t.value = t'.value) : t = t' := by
  cases t <;> cases t' <;> first | rfl | exact absurd h (by decide)

theorem colon_not_mem_value (t : EventType) : ':' ∉ t.value.toList := by
  cases t with
  | buildStarted | buildSucceeded | buildFailed => decide

theorem event_inj (huuid : Function.Injective env.uuid5) {r r' t t'}
    (h : (env.event r t).eventId = (env.event r' t').eventId) :
    r = r' ∧ t = t' := by
  have hname : "studio-github:" ++ ":".intercalate [env.projectId, "run-" ++ toString r, t.value] =
      "studio-github:" ++ ":".intercalate [env.projectId, "run-" ++ toString r', t'.value] :=
    huuid h
  have hchars := congrArg String.toList hname
  simp only [String.intercalate_cons_cons, String.intercalate_singleton, String.toList_append,
    append_assoc, append_cancel_left_eq] at hchars
  have hcolon : ":".toList = [':'] := rfl
  rw [hcolon, singleton_append, singleton_append] at hchars
  -- The run's number has no colon, so the type begins at the first one.
  obtain ⟨hrepr, _, hvalue⟩ := (append_cons_inj_of_notMem (colon_not_mem_toString r)
    (colon_not_mem_value t)).mp hchars
  exact ⟨Int.repr_inj.mp (String.toList_inj.mp hrepr),
    EventType.value_inj (String.toList_inj.mp hvalue)⟩

/-! ## The invariant -/

/-- The runs that were upserted under the number. -/
def State.runsOf (s : State ι) (runId : Int) : List WorkflowRun :=
  (s.processed.filter fun entry => entry.1 = runId).map Prod.snd

/-- The event that the worker is about to create. -/
def Phase.pending : Phase ι → Option (Event ι)
  | .looking event | .inserting event => some event
  | _ => none

/-- No event is about to be created. -/
def State.Quiet (s : State ι) : Prop := ∀ worker ∈ s.workers, worker.phase.pending = none

/-- Some run that was upserted asks for the event. -/
def State.Asked (env : Env ι) (s : State ι) (event : Event ι) : Prop :=
  ∃ runId run eventType, (runId, run) ∈ s.processed ∧ run.eventType = some eventType ∧
    event = env.event runId eventType

structure State.Inv (env : Env ι) (s : State ι) : Prop where
  rows : ∀ runId, Ranked.Holds Build.rank (s.builds runId) ((s.runsOf runId).map env.values)
  nodup : (s.events.map (·.eventId)).Nodup
  events : ∀ event ∈ s.events, s.Asked env event
  pending : ∀ worker ∈ s.workers, ∀ event ∈ worker.phase.pending, s.Asked env event
  covered : ∀ event, s.Asked env event → event ∈ s.events ∨
    ∃ worker ∈ s.workers, worker.phase.pending = some event

theorem State.Asked.eq_of_eventId (huuid : Function.Injective env.uuid5) {other}
    (h : s.Asked env event) (hother : s.Asked env other)
    (hid : event.eventId = other.eventId) : event = other := by
  obtain ⟨r, run, t, _, _, rfl⟩ := h
  obtain ⟨r', run', t', _, _, rfl⟩ := hother
  obtain ⟨rfl, rfl⟩ := event_inj huuid hid
  rfl

theorem mem_set_cases {other} (h : other ∈ l.set i worker) : other = worker ∨ other ∈ l :=
  (mem_or_eq_of_mem_set h).symm

theorem mem_set_of_ne {other} (hold : l[i]? = some old)
    (h : other ∈ l) : other = old ∨ other ∈ l.set i worker := by
  obtain ⟨j, hj⟩ := mem_iff_getElem?.mp h
  by_cases hij : i = j
  · subst hij
    rw [hold] at hj
    exact .inl (Option.some.inj hj).symm
  · refine .inr (mem_iff_getElem?.mpr ⟨j, ?_⟩)
    rw [List.getElem?_set, if_neg hij, hj]

theorem mem_set_self (hold : l[i]? = some old) : worker ∈ l.set i worker := by
  refine mem_iff_getElem?.mpr ⟨i, ?_⟩
  rw [List.getElem?_set, if_pos rfl, if_pos (List.getElem?_eq_some_iff.mp hold).1]

theorem State.Asked.mono (h : s.Asked env event)
    (hsub : ∀ entry ∈ s.processed, entry ∈ s'.processed) : s'.Asked env event := by
  obtain ⟨runId, run, t, hmem, htype, heq⟩ := h
  exact ⟨runId, run, t, hsub _ hmem, htype, heq⟩

/-- A worker that goes on without a new run or event keeps the invariant, if
what it drops is there and what it takes up is asked for. -/
theorem State.Inv.put (hinv : s.Inv env) (hold : s.workers[i]? = some old)
    (htaken : ∀ event ∈ worker.phase.pending, s.Asked env event)
    (hdropped : ∀ event ∈ old.phase.pending, event ∈ s.events ∨
      worker.phase.pending = some event) : (s.put i worker).Inv env where
  rows := hinv.rows
  nodup := hinv.nodup
  events := hinv.events
  pending := by
    intro other hother event hevent
    rcases mem_set_cases hother with rfl | hother
    · exact htaken event hevent
    · exact hinv.pending other hother event hevent
  covered := by
    intro event hasked
    rcases hinv.covered event hasked with hmem | ⟨other, hother, hpending⟩
    · exact .inl hmem
    · rcases mem_set_of_ne hold hother with rfl | hother
      · rcases hdropped event hpending with hmem | hpending
        · exact .inl hmem
        · exact .inr ⟨worker, mem_set_self hold, hpending⟩
      · exact .inr ⟨other, hother, hpending⟩

theorem State.Inv.upsert {run rest} (hinv : s.Inv env) (hold : s.workers[i]? = some old)
    (hidle : old.phase = .idle) : State.Inv env
      { s.put i ⟨rest, env.afterUpsert runId run⟩ with
        builds := Function.update s.builds runId
          (some (upsertBuild (s.builds runId) (env.values run)))
        processed := s.processed ++ [(runId, run)] } where
  rows := by
    intro other
    by_cases heq : other = runId
    · subst heq
      have hrows := (hinv.rows other).accept (env.values run)
      simpa [State.runsOf, filter_append, upsertBuild] using hrows
    · have hne : ¬runId = other := fun h => heq h.symm
      have hrows := hinv.rows other
      simpa [State.runsOf, filter_append, Function.update_of_ne heq, hne] using hrows
  nodup := hinv.nodup
  events := fun event hevent => (hinv.events event hevent).mono fun _ h => mem_append_left _ h
  pending := by
    intro other hother event hevent
    rcases mem_set_cases hother with rfl | hother
    · cases htype : run.eventType with
      | none => simp [Env.afterUpsert, htype, Phase.pending] at hevent
      | some t =>
        have heq : event = env.event runId t := by
          simpa [Env.afterUpsert, htype, Phase.pending, eq_comm] using hevent
        exact ⟨runId, run, t, by simp, htype, heq⟩
    · exact (hinv.pending other hother event hevent).mono fun _ h => mem_append_left _ h
  covered := by
    intro event hasked
    obtain ⟨r, asking, t, hmem, htype, rfl⟩ := hasked
    rcases mem_append.mp hmem with hmem | hmem
    · rcases hinv.covered _ ⟨r, asking, t, hmem, htype, rfl⟩ with hevent | ⟨other, hother, hpending⟩
      · exact .inl hevent
      · rcases mem_set_of_ne hold hother with rfl | hother
        · rw [hidle] at hpending
          cases hpending
        · exact .inr ⟨other, hother, hpending⟩
    · rw [mem_singleton, Prod.mk.injEq] at hmem
      obtain ⟨rfl, rfl⟩ := hmem
      refine .inr ⟨_, mem_set_self hold, ?_⟩
      rw [Env.afterUpsert, htype]
      rfl

theorem State.Inv.insert
    (hinv : s.Inv env) (hold : s.workers[i]? = some old) (hpending : old.phase.pending = some event)
    (hnew : ∀ other ∈ s.events, other.eventId ≠ event.eventId) :
    State.Inv env { s.put i ⟨old.runs, .idle⟩ with events := s.events ++ [event] } where
  rows := hinv.rows
  nodup := by
    rw [map_append, nodup_append]
    refine ⟨hinv.nodup, by simp, ?_⟩
    intro a ha b hb
    obtain ⟨other, hother, rfl⟩ := mem_map.mp ha
    rw [map_singleton, mem_singleton] at hb
    rw [hb]
    exact hnew other hother
  events := by
    intro other hother
    rcases mem_append.mp hother with hother | hother
    · exact hinv.events other hother
    · rw [mem_singleton] at hother
      exact hother ▸ hinv.pending old (mem_of_getElem? hold) event hpending
  pending := by
    intro other hother asked hasked
    rcases mem_set_cases hother with rfl | hother
    · cases hasked
    · exact hinv.pending other hother asked hasked
  covered := by
    intro asked hasked
    rcases hinv.covered asked hasked with hmem | ⟨other, hother, hother'⟩
    · exact .inl (mem_append_left _ hmem)
    · rcases mem_set_of_ne hold hother with rfl | hother
      · rw [hpending, Option.some.injEq] at hother'
        exact .inl (mem_append_right _ (by simp [hother']))
      · exact .inr ⟨other, hother, hother'⟩

theorem start_inv (env : Env ι) (deliveries) : (State.start deliveries).Inv env where
  rows _ := rfl
  nodup := nodup_nil
  events event hevent := by cases hevent
  pending := by
    intro worker hworker event hevent
    obtain ⟨runs, _, rfl⟩ := mem_map.mp hworker
    cases hevent
  covered := by
    intro event hasked
    obtain ⟨runId, run, t, hmem, _⟩ := hasked
    cases hmem

theorem mem_runsOf {run} : run ∈ s.runsOf runId ↔ (runId, run) ∈ s.processed := by
  simp [State.runsOf]

theorem State.Inv.row_of_mem (hinv : s.Inv env) {run} (hrun : run ∈ s.runsOf runId) :
    ∃ other ∈ s.runsOf runId, s.builds runId = some (env.values other) ∧
      ∀ run ∈ s.runsOf runId, (env.values run).rank ≤ (env.values other).rank := by
  have hrows := hinv.rows runId
  have hmem : env.values run ∈ (s.runsOf runId).map env.values := mem_map_of_mem hrun
  cases hbuild : s.builds runId with
  | none =>
    rw [hbuild] at hrows
    have hnil : (s.runsOf runId).map env.values = [] := hrows
    rw [hnil] at hmem
    cases hmem
  | some build =>
    rw [hbuild] at hrows
    obtain ⟨other, hother, rfl⟩ := mem_map.mp (Ranked.Latest.mem hrows)
    exact ⟨other, hother, rfl, fun run hrun =>
      Ranked.Latest.rank_le hrows (mem_map_of_mem hrun)⟩

def State.eventsOf (s : State ι) (runId : Int) (eventType : EventType) : List (Event ι) :=
  s.events.filter fun event => event.workflowRunId = runId ∧ event.eventType = eventType

theorem State.Inv.eventsOf (hinv : s.Inv env) (hquiet : s.Quiet) {eventType run}
    (hrun : run ∈ s.runsOf runId) (htype : run.eventType = some eventType) :
    s.eventsOf runId eventType = [env.event runId eventType] := by
  have hmem : env.event runId eventType ∈ s.events := by
    rcases hinv.covered _ ⟨runId, run, eventType, mem_runsOf.mp hrun, htype, rfl⟩ with
      hmem | ⟨worker, hworker, hpending⟩
    · exact hmem
    · rw [hquiet worker hworker] at hpending
      cases hpending
  have hall : ∀ event ∈ s.eventsOf runId eventType, event = env.event runId eventType := by
    intro event hevent
    obtain ⟨hevent, hkey⟩ := mem_filter.mp hevent
    obtain ⟨r, other, t, _, _, rfl⟩ := hinv.events event hevent
    obtain ⟨hr, ht⟩ : r = runId ∧ t = eventType := by simpa [Env.event] using hkey
    rw [hr, ht]
  have hnodup : (s.eventsOf runId eventType).Nodup := (List.Nodup.of_map _ hinv.nodup).filter _
  have hin : env.event runId eventType ∈ s.eventsOf runId eventType :=
    mem_filter.mpr ⟨hmem, by simp [Env.event]⟩
  have hreplicate := eq_replicate_of_mem hall
  rw [hreplicate] at hnodup hin ⊢
  have hone : (s.eventsOf runId eventType).length ≤ 1 := nodup_replicate.mp hnodup
  have hpos : (s.eventsOf runId eventType).length ≠ 0 := by
    intro hzero
    rw [hzero] at hin
    cases hin
  have hlength : (s.eventsOf runId eventType).length = 1 := by omega
  rw [hlength]
  rfl

inductive AttemptPhase where
  | queued
  | inProgress
  | completed
deriving DecidableEq

def AttemptPhase.rank : AttemptPhase → Nat
  | .queued => 0
  | .inProgress => 1
  | .completed => 2

variable {phase : AttemptPhase}

theorem AttemptPhase.rank_inj {other} (h : phase.rank = other.rank) : phase = other := by
  revert h
  cases phase <;> cases other <;> decide

def Shows (conclusion : String) : AttemptPhase → WorkflowRun → Prop
  | .queued, run => (∃ status ∈ waiting, run.status = some status) ∧ run.conclusion = none
  | .inProgress, run => run.status = some "in_progress" ∧ run.conclusion = none
  | .completed, run => run.status = some "completed" ∧ run.conclusion = some conclusion

theorem Shows.conclusion_eq {conclusion run other} (h : Shows conclusion phase run)
    (hother : Shows conclusion phase other) :
    run.conclusion = other.conclusion := by
  cases phase with
  | queued | inProgress | completed => exact h.2.trans hother.2.symm

/-- The conclusions that `_build_event_type` knows. -/
def conclusions : List String := ["success", "failure", "timed_out", "cancelled"]

/-- A completed run has one of these conclusions. -/
def WorkflowRun.Known (run : WorkflowRun) : Prop :=
  run.status = some "completed" → ∃ conclusion ∈ conclusions, run.conclusion = some conclusion

def AttemptPhase.status (conclusion : String) : AttemptPhase → BuildStatus
  | .queued => .queued
  | .inProgress => .inProgress
  | .completed => if conclusion = "success" then .succeeded else .failed

theorem orText_mem_waiting : ∀ status ∈ waiting, orText (some status) "" ∈ waiting := by decide

theorem status_completed : ∀ conclusion ∈ conclusions,
    buildStatus "completed" (buildEventType "completed" (some conclusion)) =
      AttemptPhase.completed.status conclusion := by
  decide

theorem status_of_shows {conclusion} (hconclusion : conclusion ∈ conclusions) {run}
    (h : Shows conclusion phase run) :
    (env.values run).status = phase.status conclusion := by
  show buildStatus (orText run.status "") run.eventType = _
  cases phase with
  | queued =>
    obtain ⟨⟨status, hstatus, hrun⟩, hnone⟩ := h
    have hmem : orText run.status "" ∈ waiting := by
      rw [hrun]
      exact orText_mem_waiting status hstatus
    rw [buildStatus, if_pos hmem]
    rfl
  | inProgress =>
    rw [WorkflowRun.eventType, h.1, h.2]
    rfl
  | completed =>
    rw [WorkflowRun.eventType, h.1, h.2]
    exact status_completed conclusion hconclusion

theorem rank_of_shows {conclusion} (hconclusion : conclusion ∈ conclusions) {run}
    (h : Shows conclusion phase run) :
    (env.values run).rank = phase.rank := by
  rw [Build.rank, status_of_shows hconclusion h]
  cases phase with
  | completed =>
    by_cases hsuccess : conclusion = "success"
    · simp [AttemptPhase.status, AttemptPhase.rank, statusRank, hsuccess]
    · simp [AttemptPhase.status, AttemptPhase.rank, statusRank, hsuccess]
  | _ => rfl

/-! ## Every run -/

variable [DecidableEq ι]

/-- The states that the deliveries lead to, in any order of statements. -/
inductive Reachable (env : Env ι) (deliveries : List (List WorkflowRun)) : State ι → Prop
  | start : Reachable env deliveries (State.start deliveries)
  | step {s s' : State ι} {i : Nat} : Reachable env deliveries s → env.step s i = some s' →
      Reachable env deliveries s'

theorem advance_cases (h : env.advance s i worker = some s') :
    (∃ rest, worker.phase = .idle ∧ s' = s.put i ⟨rest, .idle⟩) ∨
    (∃ runId run rest, worker.phase = .idle ∧
      s' = { s.put i ⟨rest, env.afterUpsert runId run⟩ with
        builds := Function.update s.builds runId
          (some (upsertBuild (s.builds runId) (env.values run)))
        processed := s.processed ++ [(runId, run)] }) ∨
    (∃ event phase, worker.phase.pending = some event ∧ phase.pending = none ∧
      (∃ other ∈ s.events, other.eventId = event.eventId) ∧ s' = s.put i ⟨worker.runs, phase⟩) ∨
    (∃ event, worker.phase.pending = some event ∧ s' = s.put i ⟨worker.runs, .inserting event⟩) ∨
    (∃ event, worker.phase.pending = some event ∧
      (∀ other ∈ s.events, other.eventId ≠ event.eventId) ∧
      s' = { s.put i ⟨worker.runs, .idle⟩ with events := s.events ++ [event] }) := by
  obtain ⟨runs, phase⟩ := worker
  have hfound {event : Event ι}
      (h : (s.events.any fun other => other.eventId = event.eventId) = true) :
      ∃ other ∈ s.events, other.eventId = event.eventId := by
    simpa using h
  have hnone {event : Event ι}
      (h : ¬(s.events.any fun other => other.eventId = event.eventId) = true) :
      ∀ other ∈ s.events, other.eventId ≠ event.eventId := by
    simpa using h
  cases phase with
  | idle =>
    cases runs with
    | nil => cases h
    | cons run rest =>
      unfold Env.advance at h
      cases hid : run.id with
      | none =>
        simp only [hid] at h
        cases h
        exact .inl ⟨rest, rfl, rfl⟩
      | some runId =>
        simp only [hid] at h
        cases h
        exact .inr (.inl ⟨runId, run, rest, rfl, rfl⟩)
  | looking event =>
    simp only [Env.advance] at h
    by_cases hany : (s.events.any fun other => other.eventId = event.eventId) = true
    · rw [if_pos hany] at h
      cases h
      exact .inr (.inr (.inl ⟨event, .idle, rfl, rfl, hfound hany, rfl⟩))
    · rw [if_neg hany] at h
      cases h
      exact .inr (.inr (.inr (.inl ⟨event, rfl, rfl⟩)))
  | inserting event =>
    simp only [Env.advance] at h
    by_cases hany : (s.events.any fun other => other.eventId = event.eventId) = true
    · rw [if_pos hany] at h
      cases h
      exact .inr (.inr (.inl ⟨event, .failed, rfl, rfl, hfound hany, rfl⟩))
    · rw [if_neg hany] at h
      cases h
      exact .inr (.inr (.inr (.inr ⟨event, rfl, hnone hany, rfl⟩)))
  | failed => cases h

theorem State.Inv.step (huuid : Function.Injective env.uuid5)
    (hinv : s.Inv env) (h : env.step s i = some s') : s'.Inv env := by
  obtain ⟨worker, hworker, hadvance⟩ := Option.bind_eq_some_iff.mp h
  have hmem := mem_of_getElem? hworker
  rcases advance_cases hadvance with ⟨rest, hidle, rfl⟩ | ⟨runId, run, rest, hidle, rfl⟩ |
    ⟨event, phase, hpending, hnone, ⟨other, hother, hid⟩, rfl⟩ | ⟨event, hpending, rfl⟩ |
    ⟨event, hpending, hnew, rfl⟩
  · refine hinv.put hworker (fun event hevent => by cases hevent) fun event hevent => ?_
    rw [hidle] at hevent
    cases hevent
  · exact hinv.upsert hworker hidle
  · refine hinv.put hworker (fun event hevent => ?_) fun dropped hdropped => .inl ?_
    · rw [hnone] at hevent
      cases hevent
    -- The event with the same identity is the same event.
    rw [hpending, Option.mem_def, Option.some.injEq] at hdropped
    subst hdropped
    have heq := (hinv.events other hother).eq_of_eventId huuid
      (hinv.pending worker hmem event hpending) hid
    exact heq ▸ hother
  · refine hinv.put hworker (fun other hother => ?_) fun dropped hdropped => .inr ?_
    · exact hinv.pending worker hmem other (by rw [hpending]; exact hother)
    · rw [hpending] at hdropped
      exact hdropped
  · exact hinv.insert hworker hpending hnew

theorem Reachable.inv (huuid : Function.Injective env.uuid5) {deliveries}
    (h : Reachable env deliveries s) :
    s.Inv env := by
  induction h with
  | start => exact start_inv env deliveries
  | step _ hstep ih => exact ih.step huuid hstep

theorem rank_step (h : env.step s i = some s') {build} (hbuild : s.builds runId = some build) :
    ∃ next, s'.builds runId = some next ∧ build.rank ≤ next.rank := by
  obtain ⟨worker, _, hadvance⟩ := Option.bind_eq_some_iff.mp h
  have hsame : ∃ next, s.builds runId = some next ∧ build.rank ≤ next.rank :=
    ⟨build, hbuild, Nat.le_refl _⟩
  rcases advance_cases hadvance with ⟨rest, _, rfl⟩ | ⟨other, run, rest, _, rfl⟩ |
    ⟨event, phase, _, _, _, rfl⟩ | ⟨event, _, rfl⟩ | ⟨event, _, _, rfl⟩
  · exact hsame
  · by_cases heq : runId = other
    · subst heq
      refine ⟨_, Function.update_self _ _ _, ?_⟩
      rw [hbuild]
      exact Ranked.rank_mono build (env.values run)
    · exact ⟨build, (Function.update_of_ne heq _ _).trans hbuild, Nat.le_refl _⟩
  · exact hsame
  · exact hsame
  · exact hsame

/-- In every run a row's status never goes back; with known conclusions the row is that of the last
run with the highest rank, for one attempt the one observed latest; a completed one is not left in
progress; and each type of event that was asked for is there once. -/
theorem builds_converge {env : Env ι} (huuid : Function.Injective env.uuid5)
    {deliveries : List (List WorkflowRun)} {s : State ι} (h : Reachable env deliveries s) :
    (∀ i s' runId build, env.step s i = some s' → s.builds runId = some build →
      ∃ next, s'.builds runId = some next ∧ build.rank ≤ next.rank) ∧
    (∀ runId, (∀ run ∈ s.runsOf runId, run.Known) →
      Ranked.Holds Build.rank (s.builds runId) ((s.runsOf runId).map env.values)) ∧
    (∀ runId, ∀ conclusion ∈ conclusions,
      (∀ run ∈ s.runsOf runId, ∃ phase, Shows conclusion phase run) →
      ∀ run ∈ s.runsOf runId, ∀ phase, Shows conclusion phase run →
      (∀ other ∈ s.runsOf runId, ∀ shown, Shows conclusion shown other → shown.rank ≤ phase.rank) →
      ∃ build, s.builds runId = some build ∧ build.status = phase.status conclusion ∧
        build.conclusion = run.conclusion) ∧
    (∀ runId, ∀ conclusion ∈ conclusions, ∀ run ∈ s.runsOf runId, Shows conclusion .completed run →
      ∃ build, s.builds runId = some build ∧ (build.status = .succeeded ∨ build.status = .failed)) ∧
    (s.Quiet → ∀ runId eventType, ((∃ run ∈ s.runsOf runId, run.eventType = some eventType) →
        s.eventsOf runId eventType = [env.event runId eventType]) ∧
      ((∀ run ∈ s.runsOf runId, run.eventType ≠ some eventType) →
        s.eventsOf runId eventType = [])) := by
  have hinv := h.inv huuid
  refine ⟨fun i s' runId build hstep hbuild => rank_step hstep hbuild,
    fun runId _ => hinv.rows runId, ?_, ?_, ?_⟩
  · intro runId conclusion hconclusion hattempt run hrun phase hshows hlatest
    obtain ⟨other, hother, hbuild, hhighest⟩ := hinv.row_of_mem hrun
    obtain ⟨shown, hshown⟩ := hattempt other hother
    have hle := hhighest run hrun
    rw [rank_of_shows hconclusion hshows, rank_of_shows hconclusion hshown] at hle
    have hphase : shown = phase :=
      AttemptPhase.rank_inj (Nat.le_antisymm (hlatest other hother shown hshown) hle)
    subst hphase
    exact ⟨_, hbuild, status_of_shows hconclusion hshown, hshown.conclusion_eq hshows⟩
  · intro runId conclusion hconclusion run hrun hshows
    obtain ⟨other, hother, hbuild, hhighest⟩ := hinv.row_of_mem hrun
    refine ⟨_, hbuild, ?_⟩
    have hle := hhighest run hrun
    rw [rank_of_shows hconclusion hshows, Build.rank] at hle
    cases hstatus : (env.values other).status with
    | queued | inProgress =>
      rw [hstatus] at hle
      exact absurd hle (by decide)
    | succeeded => exact .inl rfl
    | failed => exact .inr rfl
  · intro hquiet runId eventType
    refine ⟨fun ⟨run, hrun, htype⟩ => hinv.eventsOf hquiet hrun htype, fun hnone => ?_⟩
    refine filter_eq_nil_iff.mpr fun event hevent hkey => ?_
    obtain ⟨r, run, t, hmem, htype, rfl⟩ := hinv.events event hevent
    obtain ⟨rfl, rfl⟩ : r = runId ∧ t = eventType := by simpa [Env.event] using hkey
    exact hnone run (mem_runsOf.mpr hmem) htype

theorem Reachable.run {deliveries steps} (h : Reachable env deliveries s)
    (hrun : env.run s steps = some s') :
    Reachable env deliveries s' := by
  induction steps generalizing s with
  | nil =>
    cases hrun
    exact h
  | cons i steps ih =>
    obtain ⟨next, hstep, hrest⟩ := Option.bind_eq_some_iff.mp hrun
    exact ih (h.step hstep) hrest

def plainEnv : Env String := ⟨"p", ⟨"i"⟩, id, fun _ => none⟩

def seventh (runAttempt : Nat) (status : String) (conclusion : Option String) : WorkflowRun where
  id := some 7
  runAttempt := runAttempt
  status := some status
  conclusion := conclusion
  name := some "ci"
  runNumber := some 1
  headBranch := some "main"
  headSha := none
  prNumber := none
  htmlUrl := none
  actorLogin := none
  runStartedAt := none
  updatedAt := none

/-- The completion is delivered before the start. -/
theorem builds_converge_late :
    ∃ s, plainEnv.run (State.start [[seventh 1 "completed" (some "success")],
        [seventh 1 "in_progress" none]]) [0, 1, 0, 0, 1, 1] = some s ∧
      (∃ build, s.builds 7 = some build ∧ (build.status = .succeeded ∨ build.status = .failed)) ∧
      s.eventsOf 7 .buildSucceeded = [plainEnv.event 7 .buildSucceeded] := by
  obtain ⟨s, hs⟩ : ∃ s, plainEnv.run (State.start [[seventh 1 "completed" (some "success")],
    [seventh 1 "in_progress" none]]) [0, 1, 0, 0, 1, 1] = some s := ⟨_, rfl⟩
  have hmem : seventh 1 "completed" (some "success") ∈ s.runsOf 7 := by
    cases hs
    exact mem_cons_self
  have hquiet : s.Quiet := by
    cases hs
    exact forall_mem_cons.mpr ⟨rfl, forall_mem_cons.mpr ⟨rfl, fun _ h => by cases h⟩⟩
  obtain ⟨_, _, _, hcompleted, hevents⟩ := builds_converge (fun _ _ h => h) (Reachable.start.run hs)
  exact ⟨s, hs, hcompleted 7 "success" (by decide) _ hmem ⟨rfl, rfl⟩,
    (hevents hquiet 7 .buildSucceeded).1 ⟨_, hmem, by decide⟩⟩

/-- The first attempt has failed and the second one waits, and the row is
that of the first. -/
theorem rerun_not_shown : ∃ s, plainEnv.run (State.start [[seventh 1 "completed" (some "failure")],
        [seventh 2 "queued" none]]) [0, 0, 0, 1, 1, 1] = some s ∧
      s.workers.map (·.runs) = [[], []] ∧ s.workers.map (·.phase.pending) = [none, none] ∧
      s.runsOf 7 = [seventh 1 "completed" (some "failure"), seventh 2 "queued" none] ∧
      (s.builds 7).map (·.status) = some .failed ∧
      (plainEnv.values (seventh 2 "queued" none)).status = .queued :=
  ⟨_, rfl, rfl, rfl, rfl, rfl, rfl⟩

end StudioOS.Builds
