import StudioOS.Sync.Passing

/-!
# Sync — Handover

A signal addressed to a session outlives the session: while the addressee is live and has not
acknowledged it, no cursor of another session of the task passes it, and no handoff leaves a cursor
that does (`Watch.live`).
-/

namespace StudioOS.Sync

open List Authz Runs

variable {py : Pydantic} {w w' : World} {act : Act} {task : Task} {target : Uuid} {e : Event}

/-! ## Cursors stay within the log -/

/-- Not past the last event of the log. -/
def Store.Within (st : Store) (projectId : Uuid) (seq : Nat) : Prop :=
  seq = 0 ∨ ∃ e ∈ st.events projectId, seq ≤ e.seq

variable {st : Store} {projectId : Uuid} {seq seq' : Nat} {p : Uuid} {now : Timestamp}
  {task' : Task} {s : Uuid}

theorem Store.Within.mono
    (h : st.Within projectId seq) (hle : seq' ≤ seq) : st.Within projectId seq' := by
  rcases h with rfl | ⟨e, he, hseq⟩
  · exact .inl (Nat.le_zero.mp hle)
  · exact .inr ⟨e, he, hle.trans hseq⟩

theorem Store.Within.lt {next} (h : st.Within projectId seq)
    (hnext : st.NextSeq projectId next) : seq < next := by
  rcases h with rfl | ⟨e, he, hseq⟩
  · exact hnext.1
  · exact hseq.trans_lt (hnext.2 e he)

theorem Effect.mem {me} (h : Effect w w' me)
    (he : e ∈ w.store.events p) : e ∈ w'.store.events p := by
  rcases h.logs p with hsame | ⟨e', -, hgrown⟩
  · rw [hsame]
    exact he
  · rw [hgrown]
    exact mem_append_left _ he

theorem Effect.within {me} (h : Effect w w' me)
    (hin : w.store.Within p seq) : w'.store.Within p seq := by
  rcases hin with rfl | ⟨e, he, hseq⟩
  · exact .inl rfl
  · exact .inr ⟨e, h.mem he, hseq⟩

/-- What every reachable world keeps. -/
structure World.Wf (w : World) : Prop where
  tasks : ∀ id task, w.store.tasks id = some task → task.id = id
  logs : ∀ p, ((w.store.events p).map Event.seq).Nodup
  cursors : ∀ id row task seq, w.row id = some row → w.store.tasks row.taskId = some task →
    w.Passed id seq → w.store.Within task.projectId seq
  handoffs : ∀ id task, w.store.tasks id = some task →
    w.store.Within task.projectId ((w.handoffCursor id).getD 0)
  started : ∀ id, (w.row id).isSome = true → w.baseline id ≤ w.cursor id

/-- Before the first session: the log of each project is there. -/
structure World.Fresh (w : World) : Prop where
  tasks : ∀ id task, w.store.tasks id = some task → task.id = id
  logs : ∀ p, ((w.store.events p).map Event.seq).Nodup
  sessions : w.store.sessions = []
  handoffs : ∀ id, w.handoffCursor id = none

theorem World.Fresh.wf (h : w.Fresh) : w.Wf := by
  have hrow : ∀ id, w.row id = none := by
    intro id
    show (w.store.sessions.find? fun row => row.id = id) = none
    rw [h.sessions]
    rfl
  refine ⟨h.tasks, h.logs, ?_, ?_, ?_⟩
  · intro id row task seq hfound
    rw [hrow] at hfound
    cases hfound
  · intro id task _
    rw [h.handoffs]
    exact .inl rfl
  · intro id hsome
    rw [hrow] at hsome
    cases hsome

theorem Effect.passed {me} (h : Effect w w' me) {id} (hid : me ≠ some id)
    : w'.Passed id seq ↔ w.Passed id seq := by
  obtain ⟨hcursor, hanswers, -⟩ := h.apart id hid
  rw [World.Passed, World.Passed, hcursor, hanswers]

theorem Effect.nodup {me} (h : Effect w w' me) (hlog : ((w.store.events p).map Event.seq).Nodup) :
    ((w'.store.events p).map Event.seq).Nodup := by
  rcases h.logs p with hsame | ⟨e, hnext, hgrown⟩
  · rw [hsame]
    exact hlog
  rw [hgrown, map_append, nodup_append]
  refine ⟨hlog, nodup_singleton _, ?_⟩
  intro seq hseq seq' hseq' heq
  obtain ⟨e', he', rfl⟩ := mem_map.mp hseq
  rw [map_singleton, mem_singleton] at hseq'
  have := hnext.2 e' he'
  omega

theorem step_start {principal sessionIn id}
    (h : w.step py (.start principal sessionIn id now) = some w') :
    w.row id = none ∧ (∃ row, w'.row id = some row ∧ row.taskId = sessionIn.taskId) ∧
      w'.baseline id = (w.handoffCursor sessionIn.taskId).getD 0 ∧
      w'.cursor id = w'.baseline id ∧ w'.handoffCursor = w.handoffCursor ∧
      ∀ seq, w'.Passed id seq ↔ seq ≤ (w.handoffCursor sessionIn.taskId).getD 0 := by
  simp only [World.step] at h
  split at h
  · cases h
  rename_i hnew
  obtain ⟨-, hrow, hcursor, hanswers, hbaseline, hhandoff⟩ :=
    start_ok (Bool.eq_false_iff.mpr hnew) (toOption_ok h)
  refine ⟨by simpa using hnew, hrow, hbaseline, by rw [hcursor, hbaseline], hhandoff, fun seq => ?_⟩
  rw [World.Passed, hcursor, hanswers]
  simp

variable {principal : Principal} {q : SyncQuery} {me : Uuid} {row : WorkSession} {effective : Nat}
  {r : SyncResult}

theorem Call.passed_effective
    (h : Call py w principal q me row task effective r) (hq : q.sessionId = some me)
    (hacks : Acks w (.sync principal q now)) : w.Passed me effective := by
  have hstarts := h.starts
  cases hack : q.ack with
  | none =>
    rw [hack] at hstarts
    exact .inl (hstarts.trans (max_eq_left (Nat.zero_le _))).le
  | some ack =>
    rw [hack] at hstarts
    rcases hacks me hq ack hack with hle | ⟨r', hr', heq⟩
    · have : ack.toNat ≤ w.cursor me := Int.toNat_le.mpr hle
      exact .inl (hstarts.trans (max_eq_left this)).le
    · have hnat : ack.toNat = r'.nextCursor := by rw [heq, Int.toNat_natCast]
      have hmax : effective = max (w.cursor me) r'.nextCursor := by rw [hstarts, ← hnat]; rfl
      rcases le_total (w.cursor me) r'.nextCursor with hle | hle
      · exact .inr ⟨r', hr', (hmax.trans (max_eq_right hle)).le⟩
      · exact .inl (hmax.trans (max_eq_left hle)).le

theorem World.Passed.mono {id} (h : w.Passed id seq) (hle : seq' ≤ seq) : w.Passed id seq' := by
  rcases h with hcursor | ⟨r, hr, hnext⟩
  · exact .inl (hle.trans hcursor)
  · exact .inr ⟨r, hr, hle.trans hnext⟩

/-- **A call of `sync` as a step**: the session passes what it had passed,
or what the answer moves the cursor over. -/
theorem step_sync (hq : q.sessionId = some me) (hacks : Acks w (.sync principal q now))
    (h : w.step py (.sync principal q now) = some w') :
    ∃ row task r, Call py w principal q me row task (w.store.effective q) r ∧
      w'.answers me = r :: w.answers me ∧ w'.cursor me = w.store.effective q ∧
      w'.baseline = w.baseline ∧ w'.handoffCursor = w.handoffCursor ∧ ∀ seq, w'.Passed me seq →
        w.Passed me seq ∨ (w.store.effective q < seq ∧ seq ≤ r.nextCursor) := by
  obtain ⟨row, task, r, hcall, -, hcursor, hanswers, hbaseline, hhandoff⟩ :=
    effect_sync hq (toOption_ok h)
  refine ⟨row, task, r, hcall, hanswers, hcursor, hbaseline, hhandoff, ?_⟩
  intro seq hpassed
  by_cases hlow : seq ≤ w.store.effective q
  · exact .inl ((hcall.passed_effective hq hacks).mono hlow)
  rcases hpassed with hle | ⟨r', hr', hnext⟩
  · omega
  · rw [hanswers, mem_cons] at hr'
    rcases hr' with rfl | hold
    · exact .inr ⟨by omega, hnext⟩
    · exact .inl (.inr ⟨r', hold, hnext⟩)

theorem Call.within (h : Call py w principal q me row task effective r)
    (hlog : ((w.store.events task.projectId).map Event.seq).Nodup)
    (hlow : effective < seq) (hhigh : seq ≤ r.nextCursor) : w.store.Within task.projectId seq := by
  obtain ⟨live, files, hr⟩ := h.answered
  rw [hr] at hhigh
  rcases @nextCursor_within py (w.store.scope principal task (some me)) q.limit.toNat
    q.maxChars.toNat effective _ live files (scan_page hlog) with heq | ⟨e, he, hle⟩
  · omega
  · exact .inr ⟨e, mem_log_of_mem_scan he, hhigh.trans hle⟩

theorem Effect.row_before {session} (h : Effect w w' session) {id} (hid : (w.row id).isSome = true)
    {row'} (hrow' : w'.row id = some row') :
    ∃ row, w.row id = some row ∧ row'.taskId = row.taskId ∧
      (row.endedAt.isSome = true → row'.endedAt.isSome = true) := by
  obtain ⟨row, hrow⟩ := Option.isSome_iff_exists.mp hid
  obtain ⟨found, hfound, htask, hended⟩ := h.rows id row hrow
  rw [hrow'] at hfound
  cases hfound
  exact ⟨row, hrow, htask, hended⟩

theorem World.Wf.handoffs_step (hwf : w.Wf) {session} (h : Effect w w' session) {id}
    (htask : w.store.tasks id = some task) :
    w.store.Within task.projectId ((w'.handoffCursor id).getD 0) := by
  have hold := hwf.handoffs id task htask
  rcases h.handed id with hsame | ⟨from_, row, hrow, htaskId, hmax⟩
  · rw [hsame]
    exact hold
  rw [← htaskId] at htask
  have hcursor := hwf.cursors from_ row task _ hrow htask (.inl le_rfl)
  rw [hmax, Option.getD_some]
  rcases le_total ((w.handoffCursor id).getD 0) (w.cursor from_) with hle | hle
  · rw [max_eq_right hle]
    exact hcursor
  · rw [max_eq_left hle]
    exact hold

theorem World.Wf.step (h : w.Wf) (hacks : Acks w act) (hstep : w.step py act = some w') :
    w'.Wf := by
  have heffect := effect_step hstep
  refine ⟨?_, fun p => heffect.nodup (h.logs p), ?_, ?_, ?_⟩
  · rw [heffect.tasks]
    exact h.tasks
  · intro id row task seq hrow htask hpassed
    rw [heffect.tasks] at htask
    refine heffect.within ?_
    by_cases hid : act.session = some id
    · cases act with
      | start principal sessionIn id' now =>
        cases hid
        obtain ⟨-, ⟨row', hrow', htaskId⟩, -, -, -, hreach⟩ := step_start hstep
        rw [hrow] at hrow'
        cases hrow'
        rw [htaskId] at htask
        exact (h.handoffs _ task htask).mono ((hreach seq).mp hpassed)
      | sync principal q now =>
        obtain ⟨row', task', r, hcall, -, -, -, -, hreach⟩ := step_sync hid hacks hstep
        obtain ⟨old, hold, htaskId, -⟩ := heffect.row_before (by rw [hcall.found]; rfl) hrow
        rw [htaskId] at htask
        have hsame := hcall.found
        rw [hold] at hsame
        cases hsame
        have htask' := hcall.onTask
        rw [htask] at htask'
        cases htask'
        rcases hreach seq hpassed with hbefore | ⟨hlow, hhigh⟩
        · exact h.cursors id row' task seq hold htask hbefore
        · exact hcall.within (h.logs _) hlow hhigh
      | emit | endSession | close | handOver | publish | elsewhere => cases hid
    · obtain ⟨old, hold, htaskId, -⟩ :=
        heffect.row_before (heffect.born id hid (by rw [hrow]; rfl)) hrow
      rw [htaskId] at htask
      exact h.cursors id old task seq hold htask ((heffect.passed hid).mp hpassed)
  · intro id task htask
    rw [heffect.tasks] at htask
    exact heffect.within (h.handoffs_step heffect htask)
  · intro id hsome
    by_cases hid : act.session = some id
    · cases act with
      | start principal sessionIn id' now =>
        cases hid
        obtain ⟨-, -, -, hcursor, -⟩ := step_start hstep
        exact hcursor.ge
      | sync principal q now =>
        obtain ⟨row', task', r, hcall, -, hcursor, hbaseline, -, -⟩ := step_sync hid hacks hstep
        have hthere : (w.row id).isSome = true := by rw [hcall.found]; rfl
        rw [hbaseline]
        exact (h.started id hthere).trans (heffect.grows id hthere).1
      | emit | endSession | close | handOver | publish | elsewhere => cases hid
    · obtain ⟨hcursor, -, hbaseline⟩ := heffect.apart id hid
      rw [hcursor, hbaseline]
      exact h.started id (heffect.born id hid hsome)

/-! ## A signal to a session of the task -/

/-- A session of the task. -/
def World.On (w : World) (task : Task) (id : Uuid) : Prop :=
  ∃ row, w.row id = some row ∧ row.taskId = task.id

def World.Ended (w : World) (id : Uuid) : Prop :=
  ∃ row, w.row id = some row ∧ row.endedAt.isSome = true

/-- An answer that the session received quotes the signal. -/
def Received (py : Pydantic) (w : World) (id : Uuid) (e : Event) : Prop :=
  ∃ r ∈ w.answers id, Returned py r e

/-- Another session of the task received the signal. -/
def Heard (py : Pydantic) (w : World) (task : Task) (target : Uuid) (e : Event) : Prop :=
  ∃ id ≠ target, w.On task id ∧ Received py w id e

/-- What every run keeps after the signal is posted. -/
structure Watch (py : Pydantic) (task : Task) (target : Uuid) (e : Event) (w : World) : Prop where
  wf : w.Wf
  project : w.store.tasks task.id = some task
  logged : e ∈ w.store.events task.projectId
  addressee : w.On task target
  own : w.Passed target e.seq → Received py w target e
  live : ¬ w.Ended target → w.cursor target < e.seq →
    (∀ id ≠ target, w.On task id → ¬ w.Passed id e.seq) ∧
      (w.handoffCursor task.id).getD 0 < e.seq
  passed : w.cursor target < e.seq → ∀ id ≠ target, w.On task id → w.Passed id e.seq →
    Received py w id e ∨ e.seq ≤ w.baseline id
  heirs : w.cursor target < e.seq →
    (e.seq ≤ (w.handoffCursor task.id).getD 0 ∨
      ∃ id ≠ target, w.On task id ∧ e.seq ≤ w.baseline id) →
    Heard py w task target e

theorem World.On.isSome {id} (h : w.On task id) : (w.row id).isSome = true := by
  obtain ⟨row, hrow, -⟩ := h
  rw [hrow]
  rfl

section Frame

variable {session : Option Uuid} (heffect : Effect w w' session) {id : Uuid}
include heffect

theorem Effect.on (h : w.On task id) : w'.On task id := by
  obtain ⟨row, hrow, htask⟩ := h
  obtain ⟨row', hrow', hsame, -⟩ := heffect.rows id row hrow
  exact ⟨row', hrow', hsame.trans htask⟩

theorem Effect.on_before (hid : (w.row id).isSome = true) (h : w'.On task id) : w.On task id := by
  obtain ⟨row', hrow', htask⟩ := h
  obtain ⟨row, hrow, hsame, -⟩ := heffect.row_before hid hrow'
  exact ⟨row, hrow, hsame.symm.trans htask⟩

theorem Effect.ended (h : w.Ended id) : w'.Ended id := by
  obtain ⟨row, hrow, hended⟩ := h
  obtain ⟨row', hrow', -, hstill⟩ := heffect.rows id row hrow
  exact ⟨row', hrow', hstill hended⟩

theorem Effect.received (hid : (w.row id).isSome = true) (h : Received py w id e) :
    Received py w' id e := by
  obtain ⟨r, hr, hquoted⟩ := h
  obtain ⟨-, new, hanswers⟩ := heffect.grows id hid
  refine ⟨r, ?_, hquoted⟩
  rw [hanswers]
  exact mem_append_right _ hr

theorem Effect.heard (h : Heard py w task target e) : Heard py w' task target e := by
  obtain ⟨id, hne, hon, hreceived⟩ := h
  exact ⟨id, hne, heffect.on hon, heffect.received hon.isSome hreceived⟩

end Frame

theorem watch_posted {eventId body} (hwf : w.Wf) (htask : w.store.tasks body.taskId = some task)
    (hsession : body.sessionId = some target)
    (hstep : w.step py (.emit principal body eventId seq now) = some w') :
    Watch py task target (body.event principal eventId seq) w' := by
  have heffect : Effect w w' none := effect_step hstep
  have hid := hwf.tasks _ _ htask
  have hacks : Acks w (.emit principal body eventId seq now) := trivial
  have hwf' : w'.Wf := hwf.step hacks hstep
  simp only [World.step, htask] at hstep
  split at hstep
  · rename_i hnext
    obtain ⟨target', htarget', hlive, hw'⟩ := emit_ok (toOption_ok hstep)
    rw [htask] at htarget'
    cases htarget'
    have haddressee : w.On task target := by
      have := hlive target hsession
      unfold World.targetSession at this
      split at this
      · rename_i row hrow
        simp only [Bool.and_eq_true, decide_eq_true_eq] at this
        exact ⟨row, hrow, this.2⟩
      · cases this
    have hproject : w.store.tasks task.id = some task := by rw [hid, htask]
    -- every cursor of the task is within the log, and the signal is past it
    have hbelow : ∀ id, w'.On task id → ¬ w'.Passed id seq := by
      intro id hon hpassed
      have hnone : (none : Option Uuid) ≠ some id := by simp
      obtain ⟨row, hrow, hsame⟩ := heffect.on_before (heffect.born id hnone hon.isSome) hon
      have hin := hwf.cursors id row task seq hrow (by rw [hsame, hproject])
        ((heffect.passed hnone).mp hpassed)
      exact lt_irrefl _ (hin.lt hnext)
    have hhandoff : (w'.handoffCursor task.id).getD 0 < seq :=
      (hwf.handoffs_step heffect hproject).lt hnext
    refine ⟨hwf', ?_, ?_, heffect.on haddressee, fun h => ?_, fun _ _ => ⟨fun id _ hon => ?_, ?_⟩,
      fun _ id _ hon h => ?_, fun _ h => ?_⟩
    · rw [heffect.tasks]
      exact hproject
    · rw [hw']
      show body.event principal eventId seq ∈ Function.update w.store.events task.projectId
        (w.store.events task.projectId ++ [body.event principal eventId seq]) task.projectId
      rw [Function.update_self]
      exact mem_append_right _ (mem_singleton_self _)
    · exact absurd h (hbelow target (heffect.on haddressee))
    · exact hbelow id hon
    · exact hhandoff
    · exact absurd h (hbelow id hon)
    · rcases h with h | ⟨id, -, hon, h⟩
      · exact absurd h (Nat.not_le.mpr hhandoff)
      · exact absurd (.inl (h.trans (hwf'.started id hon.isSome))) (hbelow id hon)
  · cases hstep

theorem Watch.task_eq (h : Watch py task target e w)
    (hcall : Call py w principal q me row task' effective r) (hon : w.On task me) :
    task' = task := by
  obtain ⟨row', hrow', htask⟩ := hon
  have hproject := h.project
  rw [hcall.found] at hrow'
  cases hrow'
  rw [← htask, hcall.onTask] at hproject
  exact Option.some.inj hproject

theorem Watch.call_passes (h : Watch py task target e w) (haddressed : Addressed py task target e)
    (hcall : Call py w principal q me row task' effective r) (hon : w.On task me)
    (hunacked : w.cursor target < e.seq) (hlow : effective < e.seq)
    (hhigh : e.seq ≤ r.nextCursor) : Returned py r e ∧ (me ≠ target → w.Ended target) := by
  obtain ⟨rowT, hrowT, htaskT⟩ := h.addressee
  have hsame := h.task_eq hcall hon
  subst hsame
  obtain ⟨hreturned, hended⟩ := hcall.passes (h.wf.logs _) haddressed h.logged hrowT htaskT
    hunacked hlow hhigh
  exact ⟨hreturned, fun hne => ⟨rowT, hrowT, hended hne⟩⟩

/-- **How a session comes to pass the signal in a step**: it had passed
it, it started past it, or a call returned it. -/
theorem Watch.step_passed (h : Watch py task target e w) (haddressed : Addressed py task target e)
    (hacks : Acks w act) (hstep : w.step py act = some w') (hunacked : w.cursor target < e.seq) {id}
    (hon : w'.On task id) (hpassed : w'.Passed id e.seq) :
    (w.On task id ∧ w.Passed id e.seq) ∨
      (id ≠ target ∧ e.seq ≤ w'.baseline id ∧ e.seq ≤ (w.handoffCursor task.id).getD 0) ∨
      (w.On task id ∧ Received py w' id e ∧ (id ≠ target → w.Ended target)) := by
  have heffect := effect_step hstep
  by_cases hid : act.session = some id
  · cases act with
    | start principal sessionIn id' now =>
      cases hid
      obtain ⟨hnew, ⟨row, hrow, htaskId⟩, hbaseline, -, -, hreach⟩ := step_start hstep
      obtain ⟨row', hrow', htask⟩ := hon
      rw [hrow] at hrow'
      cases hrow'
      rw [htaskId] at htask
      rw [hreach, htask] at hpassed
      rw [hbaseline, htask]
      refine .inr (.inl ⟨?_, hpassed, hpassed⟩)
      rintro rfl
      have := h.addressee.isSome
      rw [hnew] at this
      cases this
    | sync principal q now =>
      obtain ⟨row, task', r, hcall, hanswers, -, -, -, hreach⟩ := step_sync hid hacks hstep
      have hbefore := heffect.on_before (by rw [hcall.found]; rfl) hon
      rcases hreach e.seq hpassed with hold | ⟨hlow, hhigh⟩
      · exact .inl ⟨hbefore, hold⟩
      · obtain ⟨hreturned, hended⟩ :=
          h.call_passes haddressed hcall hbefore hunacked hlow hhigh
        refine .inr (.inr ⟨hbefore, ⟨r, ?_, hreturned⟩, hended⟩)
        rw [hanswers]
        exact .head _
    | emit | endSession | close | handOver | publish | elsewhere => cases hid
  · exact .inl ⟨heffect.on_before (heffect.born id hid hon.isSome) hon,
      (heffect.passed hid).mp hpassed⟩

theorem step_baseline (hacks : Acks w act) (hstep : w.step py act = some w') {id}
    (hid : (w.row id).isSome = true) : w'.baseline id = w.baseline id := by
  by_cases hsession : act.session = some id
  · cases act with
    | start principal sessionIn id' now =>
      cases hsession
      rw [(step_start hstep).1] at hid
      cases hid
    | sync principal q now =>
      obtain ⟨-, -, -, -, -, -, hbaseline, -⟩ := step_sync hsession hacks hstep
      rw [hbaseline]
    | emit | endSession | close | handOver | publish | elsewhere => cases hsession
  · exact ((effect_step hstep).apart id hsession).2.2

/-- A handoff past the signal leaves a session of the task that is past
it. -/
theorem Effect.handed_over {session} (h : Effect w w' session)
    (hseq : seq ≤ (w'.handoffCursor task.id).getD 0) :
    seq ≤ (w.handoffCursor task.id).getD 0 ∨ ∃ id, w.On task id ∧ seq ≤ w.cursor id := by
  rcases h.handed task.id with hsame | ⟨id, row, hrow, htask, hmax⟩
  · rw [hsame] at hseq
    exact .inl hseq
  · rw [hmax, Option.getD_some, le_max_iff] at hseq
    rcases hseq with hold | hcursor
    · exact .inl hold
    · exact .inr ⟨id, ⟨row, hrow, htask⟩, hcursor⟩

/-- **The step lemma.** -/
theorem Watch.step (h : Watch py task target e w) (haddressed : Addressed py task target e)
    (hacks : Acks w act) (hstep : w.step py act = some w') : Watch py task target e w' := by
  have heffect := effect_step hstep
  have htarget := h.addressee.isSome
  have hback : w'.cursor target < e.seq → w.cursor target < e.seq :=
    fun hlt => (heffect.grows target htarget).1.trans_lt hlt
  -- a session that stands past the signal is not the addressee
  have hpast : w.cursor target < e.seq → ∀ id, w.On task id → e.seq ≤ w.cursor id →
      Heard py w task target e := by
    intro hunacked id hon hseq
    have hne : id ≠ target := by
      rintro rfl
      omega
    rcases h.passed hunacked id hne hon (.inl hseq) with hreceived | hbaseline
    · exact ⟨id, hne, hon, hreceived⟩
    · exact h.heirs hunacked (.inr ⟨id, hne, hon, hbaseline⟩)
  refine ⟨h.wf.step hacks hstep, ?_, heffect.mem h.logged, heffect.on h.addressee, ?_, ?_, ?_, ?_⟩
  · rw [heffect.tasks]
    exact h.project
  · intro hpassed
    by_cases hunacked : w.cursor target < e.seq
    · rcases h.step_passed haddressed hacks hstep hunacked (heffect.on h.addressee) hpassed with
        ⟨-, hold⟩ | ⟨hne, -, -⟩ | ⟨-, hreceived, -⟩
      · exact heffect.received htarget (h.own hold)
      · exact absurd rfl hne
      · exact hreceived
    · exact heffect.received htarget (h.own (.inl (Nat.not_lt.mp hunacked)))
  · intro hlive hunacked
    have hlive : ¬ w.Ended target := fun hended => hlive (heffect.ended hended)
    obtain ⟨hothers, hhandoff⟩ := h.live hlive (hback hunacked)
    refine ⟨fun id hne hon hpassed => ?_, ?_⟩
    · rcases h.step_passed haddressed hacks hstep (hback hunacked) hon hpassed with
        ⟨hbefore, hold⟩ | ⟨-, -, hstart⟩ | ⟨-, -, hended⟩
      · exact hothers id hne hbefore hold
      · omega
      · exact hlive (hended hne)
    · by_contra hseq
      rcases heffect.handed_over (Nat.not_lt.mp hseq) with hold | ⟨id, hon, hcursor⟩
      · omega
      · have hunacked := hback hunacked
        have hne : id ≠ target := by
          rintro rfl
          omega
        exact hothers id hne hon (.inl hcursor)
  · intro hunacked id hne hon hpassed
    rcases h.step_passed haddressed hacks hstep (hback hunacked) hon hpassed with
      ⟨hbefore, hold⟩ | ⟨-, hstart, -⟩ | ⟨-, hreceived, -⟩
    · rcases h.passed (hback hunacked) id hne hbefore hold with hreceived | hbaseline
      · exact .inl (heffect.received hbefore.isSome hreceived)
      · rw [← step_baseline hacks hstep hbefore.isSome] at hbaseline
        exact .inr hbaseline
    · exact .inr hstart
    · exact .inl hreceived
  · intro hunacked hpast'
    refine heffect.heard ?_
    rcases hpast' with hhandoff | ⟨id, hne, hon, hbaseline⟩
    · rcases heffect.handed_over hhandoff with hold | ⟨id, hon, hcursor⟩
      · exact h.heirs (hback hunacked) (.inl hold)
      · exact hpast (hback hunacked) id hon hcursor
    by_cases hthere : (w.row id).isSome = true
    · rw [step_baseline hacks hstep hthere] at hbaseline
      exact h.heirs (hback hunacked) (.inr ⟨id, hne, heffect.on_before hthere hon, hbaseline⟩)
    -- a session that this step has started
    have hstarts : w'.Passed id e.seq :=
      .inl (hbaseline.trans ((h.wf.step hacks hstep).started id hon.isSome))
    rcases h.step_passed haddressed hacks hstep (hback hunacked) hon hstarts with
      ⟨hbefore, -⟩ | ⟨-, -, hhandoff⟩ | ⟨hbefore, -⟩
    · exact absurd hbefore.isSome hthere
    · exact h.heirs (hback hunacked) (.inl hhandoff)
    · exact absurd hbefore.isSome hthere

/-! ## A session that keeps draining -/

/-- The session `s` keeps draining: each of its calls acknowledges the
`next_cursor` of the answer before, and proceeds. -/
def Drains (py : Pydantic) (s : Uuid) (w : World) : Act → Prop
  | .sync principal q now => q.sessionId = some s →
      (∀ last ∈ (w.answers s).head?, q.ack = some (last.nextCursor : Int)) ∧
      ∀ w' r, w.sync py principal q now = .ok w' → w'.answers s = r :: w.answers s →
        Proceeds (w.store.effective q) r
  | _ => True

/-- How far the session has been told. -/
def World.told (w : World) (s : Uuid) : Nat :=
  max (w.cursor s) ((w.answers s).head?.elim 0 SyncResult.nextCursor)

theorem World.told_lt (h : ¬ w.Passed s seq) : w.told s < seq := by
  rw [World.Passed, not_or] at h
  obtain ⟨hcursor, hanswers⟩ := h
  rw [World.told, max_lt_iff]
  refine ⟨Nat.not_le.mp hcursor, ?_⟩
  cases hlast : (w.answers s).head? with
  | none => exact (Nat.zero_le _).trans_lt (Nat.not_le.mp hcursor)
  | some last =>
    by_contra hnext
    exact hanswers ⟨last, List.mem_of_mem_head? hlast, Nat.not_lt.mp hnext⟩

theorem effective_eq_told
    (hcall : Call py w principal q s row task effective r) (hq : q.sessionId = some s)
    (hacks : Acks w (.sync principal q now))
    (hlast : ∀ last ∈ (w.answers s).head?, q.ack = some (last.nextCursor : Int)) :
    effective = w.told s := by
  rw [hcall.starts, World.told]
  cases hhead : (w.answers s).head? with
  | some last =>
    rw [hlast last hhead]
    rfl
  | none =>
    have hnone : w.answers s = [] := List.head?_eq_none_iff.mp hhead
    cases hack : q.ack with
    | none => rfl
    | some ack =>
      rcases hacks s hq ack hack with hle | ⟨r, hr, -⟩
      · have : ack.toNat ≤ w.cursor s := Int.toNat_le.mpr hle
        exact (max_eq_left this).trans (max_eq_left (Nat.zero_le _)).symm
      · rw [hnone] at hr
        cases hr

theorem Effect.ended_cursor (hstep : w.step py act = some w') (hacks : Acks w act)
    (hended : w.Ended target) : w'.cursor target = w.cursor target := by
  obtain ⟨row, hrow, hend⟩ := hended
  by_cases hid : act.session = some target
  · cases act with
    | start principal sessionIn id now =>
      cases hid
      rw [(step_start hstep).1] at hrow
      cases hrow
    | sync principal q now =>
      obtain ⟨row', _, _, hcall, _⟩ := step_sync hid hacks hstep
      have hfound := hcall.found
      have hlive := hcall.live
      rw [hrow] at hfound
      cases hfound
      rw [hend] at hlive
      cases hlive
    | emit | endSession | close | handOver | publish | elsewhere => cases hid
  · exact ((effect_step hstep).apart target hid).1

/-- What a session that keeps draining has come to, since the world
`w₀`. -/
structure Drained (py : Pydantic) (task : Task) (target : Uuid) (e : Event) (s : Uuid)
    (w₀ w : World) : Prop where
  watch : Watch py task target e w
  on : w.On task s
  ended : w.Ended target
  unacked : w.cursor target < e.seq
  returned : ∃ new, w.answers s = new ++ w₀.answers s ∧
    ((∃ r ∈ new, Returned py r e) ∨ (¬ w.Passed s e.seq ∧ new.length ≤ w.told s))

theorem Drained.step {w₀} (h : Drained py task target e s w₀ w)
    (haddressed : Addressed py task target e) (hs : s ≠ target)
    (hguard : Acks w act ∧ Drains py s w act) (hstep : w.step py act = some w') :
    Drained py task target e s w₀ w' := by
  obtain ⟨hacks, hdrains⟩ := hguard
  have heffect := effect_step hstep
  refine ⟨h.watch.step haddressed hacks hstep, heffect.on h.on, heffect.ended h.ended, ?_, ?_⟩
  · rw [Effect.ended_cursor hstep hacks h.ended]
    exact h.unacked
  obtain ⟨new, hnew, hcome⟩ := h.returned
  by_cases hid : act.session = some s
  · cases act with
    | start principal sessionIn id now =>
      cases hid
      have hthere := h.on.isSome
      rw [(step_start hstep).1] at hthere
      cases hthere
    | sync principal q now =>
      obtain ⟨row, task', r, hcall, hanswers, hcursor, -, -, hreach⟩ := step_sync hid hacks hstep
      obtain ⟨hlast, hproceeds⟩ := hdrains hid
      have hproceeds := hproceeds w' r (toOption_ok hstep) hanswers
      have hstart := effective_eq_told hcall hid hacks hlast
      refine ⟨r :: new, by rw [hanswers, hnew, cons_append], ?_⟩
      rcases hcome with ⟨r', hr', hreturned⟩ | ⟨hnot, hlength⟩
      · exact .inl ⟨r', .tail _ hr', hreturned⟩
      have hlow : w.store.effective q < e.seq := by
        rw [hstart]
        exact World.told_lt hnot
      obtain ⟨rowT, hrowT, htaskT⟩ := h.watch.addressee
      obtain ⟨rowE, hrowE, hended⟩ := h.ended
      rw [hrowT] at hrowE
      cases hrowE
      have hsame := h.watch.task_eq hcall h.on
      subst hsame
      rcases hcall.returns_or_advances (h.watch.wf.logs _) haddressed h.watch.logged hrowT
        htaskT hended hs h.unacked hlow hproceeds with hreturned | ⟨hmoves, hbelow⟩
      · exact .inl ⟨r, .head _, hreturned⟩
      refine .inr ⟨fun hpassed => ?_, ?_⟩
      · rcases hreach e.seq hpassed with hold | ⟨-, hhigh⟩
        · exact hnot hold
        · omega
      · have htold : r.nextCursor ≤ w'.told s := by
          rw [World.told, hanswers]
          exact le_max_right _ _
        rw [length_cons]
        omega
    | emit | endSession | close | handOver | publish | elsewhere => cases hid
  · obtain ⟨hcursor, hanswers, -⟩ := heffect.apart s hid
    refine ⟨new, by rw [hanswers, hnew], ?_⟩
    rcases hcome with hreturned | ⟨hnot, hlength⟩
    · exact .inl hreturned
    · refine .inr ⟨fun hpassed => hnot ((heffect.passed hid).mp hpassed), ?_⟩
      rw [World.told, hcursor, hanswers]
      exact hlength

/-- **A session that keeps draining is told of the signal** after as many
calls as the seq of the signal, at most. -/
theorem Watch.drains (h : Watch py task target e w) (haddressed : Addressed py task target e)
    (hended : w.Ended target) (hunacked : w.cursor target < e.seq) (hs : s ≠ target)
    (hon : w.On task s) (hnot : ¬ w.Passed s e.seq) {acts}
    (hrun : Run (World.step py) (fun w act => Acks w act ∧ Drains py s w act) w acts w') {new}
    (hnew : w'.answers s = new ++ w.answers s)
    (hlength : e.seq ≤ new.length) : ∃ r ∈ new, Returned py r e := by
  have hstart : Drained py task target e s w w :=
    ⟨h, hon, hended, hunacked, [], rfl, .inr ⟨hnot, Nat.zero_le _⟩⟩
  obtain ⟨new', hnew', hcome⟩ := (hrun.invariant
    (fun hd hguard hstep => hd.step haddressed hs hguard hstep) hstart).returned
  rw [hnew] at hnew'
  have hsame := append_cancel_right hnew'
  subst hsame
  rcases hcome with hreturned | ⟨hstill, htold⟩
  · exact hreturned
  · have := World.told_lt hstill
    omega

end StudioOS.Sync
