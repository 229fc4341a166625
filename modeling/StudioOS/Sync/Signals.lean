import StudioOS.Sync.Sessions

/-!
# Sync — Signals

A signal addressed to a session of the task (`Addressed`), as the scan of
another session of the task sees it.
-/

namespace StudioOS.Sync

open Authz

variable {py : Pydantic} {principal : Principal} {q : SyncQuery} {w : World} {task : Task}
  {target : Uuid} {e : Event}

theorem startsWith_append (p s) : startsWith (p ++ s) p = true := by
  rw [startsWith, String.toList_append, List.isPrefixOf_iff_prefix]
  exact List.prefix_append _ _

theorem isCoordination_event (body : CoordinationEmit) (principal)
    (eventId seq) : isCoordination (body.event principal eventId seq) = true :=
  startsWith_append coordinationPrefix body.intent

/-- A signal that another session sent to a session of the task, and that
is quoted as it was stored. -/
structure Addressed (py : Pydantic) (task : Task) (target : Uuid) (e : Event) : Prop where
  coordination : isCoordination e = true
  task : e.payload.get "task_id" = .string task.id.str
  session : e.payload.get "session_id" = .string target.str
  sender : e.payload.get "from_session_id" ≠ .string target.str
  quoted : (signal py e).isSome = true

theorem addressed_emit {body : CoordinationEmit} {eventId : Uuid} {seq : Nat}
    (htask : body.taskId = task.id) (hsession : body.sessionId = some target)
    (hsender : body.fromSessionId ≠ target)
    (hquoted : (signal py (body.event principal eventId seq)).isSome = true) :
    Addressed py task target (body.event principal eventId seq) where
  coordination := isCoordination_event body principal eventId seq
  task := by
    rw [← htask]
    rfl
  session := by
    simp only [CoordinationEmit.event, CoordinationEmit.payload, hsession]
    rfl
  sender := by
    intro h
    have hsame : JsonValue.string body.fromSessionId.str = .string target.str := h
    cases hfrom : body.fromSessionId
    cases htarget : target
    rw [hfrom, htarget] at hsame hsender
    cases hsame
    exact hsender rfl
  quoted := hquoted

theorem str_ne {me} (hme : me ≠ some target) : me.map Uuid.str ≠ some target.str := by
  intro h
  obtain ⟨id, rfl, hstr⟩ := Option.map_eq_some_iff.mp h
  exact hme (by rw [show id = target from congrArg Uuid.mk hstr])

variable {scope : SyncScope}

theorem Addressed.targetsTask (h : Addressed py task target e) (htask : scope.myTaskId = task.id) :
    scope.targetsTask e = true := by
  rw [SyncScope.targetsTask, h.task, htask]
  exact decide_eq_true rfl

theorem Addressed.pending (h : Addressed py task target e) (htask : scope.myTaskId = task.id)
    (hme : scope.mySessionStr ≠ some target.str) {cursor}
    (hlive : scope.targetState target.str = some (cursor, false)) (hunacked : cursor < e.seq) :
    scope.pendingElsewhere e = true := by
  rw [SyncScope.pendingElsewhere, h.coordination, h.session]
  simp [JsonValue.pyStr, h.targetsTask htask, hme, hlive, hunacked]

theorem Addressed.matches_of_targetsMe (h : Addressed py task target e)
    (htargets : scope.targetsMe e = true) (hmine : scope.fromMyself e = false) :
    scope.Matches py e := by
  obtain ⟨s, hs⟩ := Option.isSome_iff_exists.mp h.quoted
  simp [SyncScope.Matches, SyncScope.classify, h.coordination, htargets, hmine, hs]

theorem Addressed.matches_own (h : Addressed py task target e)
    (hme : scope.mySessionStr = some target.str) : scope.Matches py e := by
  refine h.matches_of_targetsMe ?_ ?_
  · simp [SyncScope.targetsMe, h.session, JsonValue.pyStr, hme]
  · simp [SyncScope.fromMyself, hme, h.sender]

theorem Addressed.matches_ended (h : Addressed py task target e) (htask : scope.myTaskId = task.id)
    (hme : scope.mySessionStr ≠ some target.str) {cursor}
    (hended : scope.targetState target.str = some (cursor, true)) (hunacked : cursor < e.seq) :
    scope.Matches py e := by
  refine h.matches_of_targetsMe ?_ ?_
  · simp [SyncScope.targetsMe, h.session, JsonValue.pyStr, h.targetsTask htask, hended, hunacked]
  unfold SyncScope.fromMyself
  split
  · rfl
  · rename_i mine hmine
    have hother : target.str ≠ mine := fun heq => hme (by rw [hmine, heq])
    simp [h.session, JsonValue.pyStr, hother]

/-- The answer quotes the signal. -/
def Returned (py : Pydantic) (r : SyncResult) (e : Event) : Prop :=
  ∃ s ∈ signal py e, (eventCandidate e .coordination (some s)).item ∈ r.items

theorem aiWorkId_of_coordination (h : isCoordination e = true) : aiWorkId e = none := by
  have hwork : startsWith e.eventType aiWorkPrefix = false := by
    by_contra hboth
    rw [Bool.not_eq_false, startsWith, List.isPrefixOf_iff_prefix] at hboth
    rw [isCoordination, startsWith, List.isPrefixOf_iff_prefix] at h
    obtain ⟨rest, hrest⟩ := h
    obtain ⟨rest', hrest'⟩ := hboth
    rw [← hrest] at hrest'
    exact absurd (congrArg List.head? hrest') (by simp [coordinationPrefix, aiWorkPrefix])
  rw [aiWorkId, hwork]
  rfl

/-- A signal belongs to no work entry: an answer that covers it returns
it. -/
theorem Addressed.returned (h : Addressed py task target e) {log r}
    (hcovered : Covered py scope log r e) : Returned py r e := by
  rcases hcovered with ⟨c, hc, hmem⟩ | ⟨-, -, -, ⟨work, hwork, -⟩, -⟩
  · obtain ⟨s, hs, rfl⟩ := classify_coordination h.coordination hc
    exact ⟨s, hs, hmem⟩
  · rw [aiWorkId_of_coordination h.coordination] at hwork
    cases hwork

/-! ## One call -/

theorem World.cursor_of_row {row} (h : w.row target = some row) :
    w.cursor target = row.syncCursorSeq.getD 0 := by
  rw [World.cursor, h, Option.bind_some]

theorem targetState_eq {me row} (hrow : w.row target = some row)
    (htask : row.taskId = task.id) : (w.store.scope principal task me).targetState target.str =
      some (w.cursor target, row.endedAt.isSome) := by
  have hcursor := World.cursor_of_row hrow
  obtain ⟨hid, before, after, hsessions, hbefore⟩ := List.find?_eq_some_iff_append.mp
    (show w.store.sessions.find? (fun row => row.id = target) = some row from hrow)
  have hid : row.id = target := of_decide_eq_true hid
  have hfound : (w.store.sessions.filter fun row => row.taskId = task.id).find?
      (fun row => row.id.str = target.str) = some row := by
    rw [hsessions, List.filter_append, List.filter_cons_of_pos (by simp [htask]),
      List.find?_append, List.find?_cons_of_pos (by simp [hid]), List.find?_eq_none.mpr]
    · rfl
    intro row' hrow'
    have hother := hbefore row' (List.mem_of_mem_filter hrow')
    simp only [decide_eq_true_eq]
    intro hstr
    have : row'.id = target := by
      cases hid' : row'.id
      cases htarget : target
      rw [hid', htarget] at hstr
      exact congrArg Uuid.mk hstr
    simp [this] at hother
  rw [SyncScope.targetState, hcursor]
  exact congrArg (Option.map _) hfound

/-- A call of the session `me`, on the task of its row, from `effective`. -/
structure Call (py : Pydantic) (w : World) (principal : Principal) (q : SyncQuery) (me : Uuid)
    (row : WorkSession) (task : Task) (effective : Nat) (r : SyncResult) : Prop where
  found : w.row me = some row
  live : row.endedAt.isSome = false
  onTask : w.store.tasks row.taskId = some task
  starts : effective = max (w.cursor me) (q.ack.elim 0 Int.toNat)
  answered : ∃ live files, r = Sync.answer py (w.store.scope principal task (some me)) effective
    (scanPage effective (w.store.events task.projectId)) live files q.limit.toNat q.maxChars.toNat

theorem World.sync_named {w' now me} (hq : q.sessionId = some me)
    (h : w.sync py principal q now = .ok w') :
    ∃ row task r, Call py w principal q me row task (w.store.effective q) r ∧ w' = { w with
        store := w.store.acknowledge (some row) (w.store.effective q) now
        answers := Function.update w.answers me (r :: w.answers me) } := by
  obtain ⟨⟨r, st⟩, hsync, h⟩ := bind_ok h
  cases h
  -- the session of the call is live
  obtain ⟨row, hrow, hlive⟩ : ∃ row, w.row me = some row ∧ row.endedAt.isSome = false := by
    obtain ⟨_, _, hcall⟩ := bind_ok hsync
    obtain ⟨workSession, hws, _⟩ := bind_ok hcall
    rw [hq] at hws
    simp only [Store.liveSession] at hws
    split at hws
    · rename_i row hrow
      split at hws
      · cases hws
      · rename_i hopen
        exact ⟨row, hrow, Bool.eq_false_iff.mpr hopen⟩
    · cases hws
  have hsession : w.store.sessionOf q.sessionId = some row := by
    rw [hq]
    exact hrow
  obtain ⟨task, files, htask, -, hst, hr⟩ := sync_ok hsync
  rw [hsession] at hst
  have hkept : Kept (some me) w.store st := by
    have := kept_acknowledge w.store q.sessionId (w.store.effective q) now
    rw [hsession, hq] at this
    rw [hst]
    exact this
  refine ⟨row, task, r, ⟨hrow, hlive, ?_, ?_, ?_⟩, ?_⟩
  · rw [Store.taskOf, hsession] at htask
    exact htask
  · rw [Store.effective, hsession, World.cursor, hrow]
    cases q.ack with
    | none => exact (max_eq_left (Nat.zero_le _)).symm
    | some ack => rfl
  · refine ⟨st.claims task.projectId, files, ?_⟩
    rw [hr, hq, (hkept.sameScope task).answer_eq]
    simp only [listEventsAfter, hkept.events]
    rfl
  · rw [← hst, hq]

variable {me : Uuid} {effective : Nat} {r : SyncResult}

/-- **A call that passes a signal returns it**, and then its addressee has
ended or is the caller. -/
theorem Call.passes {row rowT} (h : Call py w principal q me row task effective r)
    (hlog : ((w.store.events task.projectId).map Event.seq).Nodup)
    (haddressed : Addressed py task target e) (he : e ∈ w.store.events task.projectId)
    (htarget : w.row target = some rowT) (htask : rowT.taskId = task.id)
    (hunacked : w.cursor target < e.seq) (hlow : effective < e.seq) (hhigh : e.seq ≤ r.nextCursor) :
    Returned py r e ∧ (me ≠ target → rowT.endedAt.isSome = true) := by
  obtain ⟨live, files, hr⟩ := h.answered
  rw [hr] at hhigh ⊢
  have hmine : (w.store.scope principal task (some me)).mySessionStr = some me.str := rfl
  by_cases hme : me = target
  · refine ⟨haddressed.returned (covered_of_passed hlog he ?_ hlow hhigh), fun hne => absurd hme hne⟩
    exact haddressed.matches_own (by rw [hmine, hme])
  have hother : (w.store.scope principal task (some me)).mySessionStr ≠ some target.str :=
    str_ne fun heq => hme (Option.some.inj heq)
  have hstate := @targetState_eq principal w task target (some me) rowT htarget htask
  cases hended : rowT.endedAt.isSome with
  | false =>
    -- a live addressee holds the cursor below the signal
    rw [hended] at hstate
    have hpending := haddressed.pending rfl hother hstate hunacked
    have hscan := @scan_page effective _ hlog
    have hbelow := (@sync_cursor_safe py (w.store.scope principal task (some me)) q.limit.toNat
      q.maxChars.toNat effective _ live files hscan.sorted hscan.past).2.1 e
      (mem_scan_of_passed hlog he hlow hhigh) hpending
    omega
  | true =>
    rw [hended] at hstate
    refine ⟨haddressed.returned (covered_of_passed hlog he ?_ hlow hhigh), fun _ => rfl⟩
    exact haddressed.matches_ended rfl hother hstate hunacked

/-- The call moves the cursor on, or there is nothing to come back for: no
event is left out and the scan saw the end of the log. -/
def Proceeds (effective : Nat) (r : SyncResult) : Prop :=
  effective < r.nextCursor ∨ (r.resync = false ∧ ¬ r.CountsEvent)

/-- **A call that proceeds returns the signal of an ended session, or
comes closer to it.** -/
theorem Call.returns_or_advances {row rowT} (h : Call py w principal q me row task effective r)
    (hlog : ((w.store.events task.projectId).map Event.seq).Nodup)
    (haddressed : Addressed py task target e) (he : e ∈ w.store.events task.projectId)
    (htarget : w.row target = some rowT) (htask : rowT.taskId = task.id)
    (hended : rowT.endedAt.isSome = true) (hme : me ≠ target)
    (hunacked : w.cursor target < e.seq) (hlow : effective < e.seq)
    (hproceeds : Proceeds effective r) :
    Returned py r e ∨ (effective < r.nextCursor ∧ r.nextCursor < e.seq) := by
  rcases hproceeds with hmoves | ⟨hresync, hcounts⟩
  · by_cases hpassed : e.seq ≤ r.nextCursor
    · exact .inl (h.passes hlog haddressed he htarget htask hunacked hlow hpassed).1
    · exact .inr ⟨hmoves, by omega⟩
  obtain ⟨live, files, hr⟩ := h.answered
  rw [hr] at hresync hcounts ⊢
  have hscan := @scan_page effective _ hlog
  obtain ⟨-, -, -, hcap⟩ := @answer_eq py (w.store.scope principal task (some me))
    q.limit.toNat q.maxChars.toNat effective
    (scanPage effective (w.store.events task.projectId)) live files
  rw [hcap] at hresync
  have hnone := nothingPending_of_not_counts hcounts
  rw [countsEvent_iff hscan hnone] at hcounts
  have hstate := @targetState_eq principal w task target (some me) rowT htarget htask
  rw [hended] at hstate
  have hother : (w.store.scope principal task (some me)).mySessionStr ≠ some target.str :=
    str_ne fun heq => hme (Option.some.inj heq)
  exact .inl (haddressed.returned (covered_of_complete hlog (not_not.mp hcounts)
    (of_decide_eq_false hresync) he (haddressed.matches_ended rfl hother hstate hunacked) hlow))

end StudioOS.Sync
