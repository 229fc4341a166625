import StudioOS.Sync.Handover

/-!
# Sync — Survival

The signal of an ended session is returned to every other session of the task
that keeps draining, unless the session started from a handoff cursor that is
past the signal.
-/

namespace StudioOS.Sync

open Option Authz Runs

/-- **A signal survives the end of its addressee.** In every run from the start whose clients
acknowledge only a `next_cursor` they received: the addressee passes a posted signal only after
receiving it. While it has not acknowledged it, no cursor of another session of the task passes it
as long as the addressee is live, and later only by receiving it or from a handoff cursor of one
that has; and a session that keeps draining gets it once the addressee has ended. -/
theorem signal_survives_end {py : Pydantic} {w₀ w₁ w₂ w : World} {acts acts' : List Act}
    {principal : Principal} {body : CoordinationEmit} {eventId : Uuid} {seq : Nat}
    {now : Timestamp} {task : Task} {target : Uuid} (hfresh : w₀.Fresh)
    (hbefore : Run (World.step py) Acks w₀ acts w₁)
    (htask : w₁.store.tasks body.taskId = some task) (hsession : body.sessionId = some target)
    (hsender : body.fromSessionId ≠ target)
    (hquoted : (signal py (body.event principal eventId seq)).isSome = true)
    (hpost : w₁.step py (.emit principal body eventId seq now) = some w₂)
    (hafter : Run (World.step py) Acks w₂ acts' w) : let e := body.event principal eventId seq
    (w.Passed target seq → Received py w target e) ∧
    (w.cursor target < seq → (¬ w.Ended target → (∀ id ≠ target, w.On task id → ¬ w.Passed id seq) ∧
        (w.handoffCursor task.id).getD 0 < seq) ∧
      (∀ id ≠ target, w.On task id → w.Passed id seq →
        Received py w id e ∨ (seq ≤ w.baseline id ∧ Heard py w task target e)) ∧
      (w.Ended target → ∀ s ≠ target, w.On task s → ¬ w.Passed s seq → ∀ acts'' w' new,
          Run (World.step py) (fun w act => Acks w act ∧ Drains py s w act) w acts'' w' →
          w'.answers s = new ++ w.answers s → seq ≤ new.length → ∃ r ∈ new, Returned py r e)) := by
  have hwf : w₁.Wf := hbefore.invariant World.Wf.step hfresh.wf
  have haddressed : Addressed py task target (body.event principal eventId seq) :=
    addressed_emit (hwf.tasks _ _ htask).symm hsession hsender hquoted
  have hwatch : Watch py task target (body.event principal eventId seq) w :=
    hafter.invariant (fun h hacks hstep => h.step haddressed hacks hstep)
      (watch_posted hwf htask hsession hpost)
  refine ⟨hwatch.own, fun hunacked => ⟨fun hlive => hwatch.live hlive hunacked, ?_, ?_⟩⟩
  · intro id hne hon hpassed
    rcases hwatch.passed hunacked id hne hon hpassed with hreceived | hbaseline
    · exact .inl hreceived
    · exact .inr ⟨hbaseline, hwatch.heirs hunacked (.inr ⟨id, hne, hon, hbaseline⟩)⟩
  · intro hended s hs hon hnot acts'' w' new hrun hnew hlength
    exact hwatch.drains haddressed hended hunacked hs hon hnot hrun hnew hlength

/-! ## Two sessions and a successor -/

def emptyRefs : String := "\x7b'task_ids': [], 'decision_ids': [], 'paths': []\x7d"

/-- Signals without references. -/
def quoting : Pydantic :=
  { validateSignal := fun input =>
      match input.text, input.refs, input.inReplyTo, input.fromSessionId with
      | .string text, .container refs, .null, .string sender =>
        if refs = emptyRefs then
          some ⟨input.eventId, input.intent, text, ⟨[], [], []⟩, none, some ⟨sender⟩⟩
        else none
      | _, _, _, _ => none
    dumpLength := plainLength }

def caller (machine : String) : Principal :=
  { machine := ⟨⟨machine⟩, ⟨"owner"⟩⟩
    role := .agent
    projectScope := .allProjects }

/-- A project with an empty log, and no session. -/
def beginning : World :=
  { store :=
      { sessions := []
        tasks := fun id => some ⟨id, ⟨"project"⟩⟩
        agents := fun _ => none
        events := fun _ => []
        related := fun _ _ => []
        claims := fun _ => [] }
    agentId := fun _ => none
    handoffCursor := fun _ => none
    baseline := fun _ => 0
    answers := fun _ => [] }

def startOn (machine session : String) : Act :=
  .start (caller machine) ⟨⟨"task"⟩, ⟨machine⟩, none⟩ ⟨session⟩ 0

def question (sender target : String) : CoordinationEmit :=
  { fromSessionId := ⟨sender⟩
    intent := "question"
    taskId := ⟨"task"⟩
    sessionId := some ⟨target⟩
    text := "done?"
    refs := .container emptyRefs
    inReplyTo := none }

def syncOf (machine session : String) (ack : Option Int) : Act :=
  .sync (caller machine) { sessionId := some ⟨session⟩, ack := ack } 2

/-- The question is posted, as the first event of the project. -/
def ask (machine sender target : String) : Act :=
  .emit (caller machine) (question sender target) ⟨"e"⟩ 1 0

def endOf (machine session : String) : Act := .endSession (caller machine) ⟨session⟩ 1

theorem beginning_fresh : beginning.Fresh where
  tasks := by
    intro id task h
    cases h
    rfl
  logs := fun _ => List.nodup_nil
  sessions := rfl
  handoffs := fun _ => rfl

/-- The session `b` asks `a`, which ends; the next call of `b` returns its
own question. -/
theorem signal_survives_end_sample :
    ∃ w₁ w₂ w w', Run (World.step quoting) Acks beginning [startOn "A" "a", startOn "B" "b"] w₁ ∧
      w₁.step quoting (ask "B" "b" "a") = some w₂ ∧
      Run (World.step quoting) Acks w₂ [endOf "A" "a"] w ∧
      w.step quoting (syncOf "B" "b" none) = some w' ∧
      ∃ r ∈ w'.answers ⟨"b"⟩, Returned quoting r ((question "b" "a").event (caller "B") ⟨"e"⟩ 1) := by
  have h : (execWithin (World.step quoting) Acks beginning [startOn "A" "a", startOn "B" "b"]).any
      (fun w₁ =>
        (w₁.step quoting (ask "B" "b" "a")).any fun w₂ =>
        (execWithin (World.step quoting) Acks w₂ [endOf "A" "a"]).any fun w =>
        ((w.row ⟨"a"⟩).any fun row => row.endedAt.isSome) ∧
        ((w.row ⟨"b"⟩).any fun row => row.taskId = ⟨"task"⟩) ∧
        w.cursor ⟨"a"⟩ = 0 ∧ w.cursor ⟨"b"⟩ = 0 ∧ (w.answers ⟨"b"⟩).length = 0 ∧
        Acks w (syncOf "B" "b" none) ∧
        (w.step quoting (syncOf "B" "b" none)).any fun w' =>
          (w'.answers ⟨"b"⟩).map SyncResult.nextCursor = [1]) = true := by
    decide +kernel
  obtain ⟨w₁, hw₁, h⟩ := (any_eq_true _ _).mp h
  obtain ⟨w₂, hw₂, h⟩ := (any_eq_true _ _).mp h
  obtain ⟨w, hw, h⟩ := (any_eq_true _ _).mp h
  rw [decide_eq_true_eq] at h
  obtain ⟨hended, hon, ha, hb, hanswers, hacks, h⟩ := h
  obtain ⟨w', hw', h⟩ := (any_eq_true _ _).mp h
  rw [decide_eq_true_eq] at h
  have hempty := List.eq_nil_of_length_eq_zero hanswers
  obtain ⟨rowA, hrowA, hended⟩ := (any_eq_true _ _).mp hended
  obtain ⟨rowB, hrowB, hon⟩ := (any_eq_true _ _).mp hon
  rw [decide_eq_true_eq] at hon
  refine ⟨w₁, w₂, w, w', .of_execWithin hw₁, hw₂, .of_execWithin hw, hw', ?_⟩
  -- the one call acknowledges nothing and moves on to the question
  have hdrains : Drains quoting ⟨"b"⟩ w (syncOf "B" "b" none) := by
    intro _
    refine ⟨fun last hlast => ?_, fun w'' r hw'' hr => ?_⟩
    · rw [hempty] at hlast
      cases hlast
    have hsame : w.step quoting (syncOf "B" "b" none) = some w'' := by
      show (w.sync quoting _ _ _).toOption = some w''
      rw [hw'']
      rfl
    rw [hw'] at hsame
    cases hsame
    rw [hr, hempty, List.map_singleton, List.cons.injEq] at h
    refine .inl ?_
    rw [h.1]
    show effectiveCursor (((w.row ⟨"b"⟩).bind WorkSession.syncCursorSeq)) none < 1
    show w.cursor ⟨"b"⟩ < 1
    omega
  have hunpassed : ¬ w.Passed ⟨"b"⟩ 1 := by
    rintro (hcursor | ⟨r, hr, -⟩)
    · omega
    · rw [hempty] at hr
      cases hr
  have htask : w₁.store.tasks = beginning.store.tasks :=
    (Run.of_execWithin hw₁).invariant (fun h _ hstep => (effect_step hstep).tasks.trans h) rfl
  obtain ⟨-, hlater⟩ := signal_survives_end beginning_fresh (.of_execWithin hw₁)
    (congrFun htask _) rfl
    (by decide) (by decide +kernel) hw₂ (.of_execWithin hw)
  obtain ⟨-, -, hdrained⟩ := hlater (by omega)
  exact hdrained ⟨rowA, hrowA, hended⟩ ⟨"b"⟩ (by decide) ⟨rowB, hrowB, hon⟩ hunpassed
    [syncOf "B" "b" none] w' (w'.answers ⟨"b"⟩) (.cons ⟨hacks, hdrains⟩ hw' (.nil _))
    (by rw [hempty, List.append_nil]) (by rw [← List.length_map, h]; rfl)

/-- `a` ends without the question; `b` receives it, acknowledges it and
hands off; `c` starts from there. -/
def handoffRun : List Act :=
  [startOn "A" "a", startOn "B" "b", ask "B" "b" "a", endOf "A" "a", syncOf "B" "b" none,
    syncOf "B" "b" (some 1)] ++ handoffActs (caller "B") ⟨"b"⟩ (some 1) 3 none ++
  [startOn "C" "c", syncOf "C" "c" none]

/-- `a` asks itself, and another event of the task follows. -/
def ownRun : List Act :=
  [startOn "A" "a", ask "A" "a" "a",
    .publish ⟨"project"⟩ ⟨⟨"e2"⟩, 2, "task.updated", some ⟨"task"⟩, none, []⟩,
    syncOf "A" "a" none, syncOf "A" "a" (some 2)]

/-- A successor is past the unacknowledged signal of an ended session and
is never told of it: its predecessor received it. And a session passes its
own signal without receiving it. -/
theorem successor_skips_signal :
    (∃ w, Run (World.step quoting) Acks beginning handoffRun w ∧ w.Ended ⟨"a"⟩ ∧
      w.cursor ⟨"a"⟩ < 1 ∧ 1 ≤ w.cursor ⟨"c"⟩ ∧ (w.answers ⟨"c"⟩).length = 1 ∧
      ¬ Received quoting w ⟨"c"⟩ ((question "b" "a").event (caller "B") ⟨"e"⟩ 1)) ∧
    ∃ w, Run (World.step quoting) Acks beginning ownRun w ∧ 1 ≤ w.cursor ⟨"a"⟩ ∧
      ¬ Received quoting w ⟨"a"⟩ ((question "a" "a").event (caller "A") ⟨"e"⟩ 1) := by
  constructor
  · have h : (execWithin (World.step quoting) Acks beginning handoffRun).any (fun w =>
        ((w.row ⟨"a"⟩).any fun row => row.endedAt.isSome) ∧ w.cursor ⟨"a"⟩ < 1 ∧
        1 ≤ w.cursor ⟨"c"⟩ ∧ (w.answers ⟨"c"⟩).map (fun r => r.items) = [[]]) = true := by
      decide +kernel
    obtain ⟨w, hw, h⟩ := (any_eq_true _ _).mp h
    rw [decide_eq_true_eq] at h
    obtain ⟨hended, ha, hc, hitems⟩ := h
    obtain ⟨rowA, hrowA, hended⟩ := (any_eq_true _ _).mp hended
    refine ⟨w, .of_execWithin hw, ⟨rowA, hrowA, hended⟩, ha, hc, ?_, ?_⟩
    · rw [← List.length_map, hitems]
      rfl
    · rintro ⟨r, hr, s, -, hmem⟩
      have := List.mem_map_of_mem (f := fun r : SyncResult => r.items) hr
      rw [hitems, List.mem_singleton] at this
      rw [this] at hmem
      cases hmem
  · have h : (execWithin (World.step quoting) Acks beginning ownRun).any (fun w =>
        1 ≤ w.cursor ⟨"a"⟩ ∧ ∀ r ∈ w.answers ⟨"a"⟩, ∀ item ∈ r.items,
          item.coordination = none) = true := by
      decide +kernel
    obtain ⟨w, hw, h⟩ := (any_eq_true _ _).mp h
    rw [decide_eq_true_eq] at h
    obtain ⟨ha, hitems⟩ := h
    refine ⟨w, .of_execWithin hw, ha, ?_⟩
    rintro ⟨r, hr, s, -, hmem⟩
    cases hitems r hr _ hmem

end StudioOS.Sync
