import StudioOS.Sync.Progress

/-!
# Sync — Calls

One call of `sync` on the store. A call that succeeds writes one thing, the
acknowledged cursor and the activity of the caller's own session, and answers
from the scope and the scan it read (`sync_ok`).
-/

namespace StudioOS.Sync

open Option Authz

variable {py : Pydantic} {principal : Principal} {q : SyncQuery}

variable {st st' : Store}

/-- The session a call names, if it is there. -/
def Store.sessionOf (st : Store) (sessionId : Option Uuid) : Option WorkSession :=
  sessionId.bind fun id => st.sessions.find? fun row => row.id = id

def Store.taskOf (st : Store) (q : SyncQuery) : Option Task :=
  match st.sessionOf q.sessionId with
  | some row => st.tasks row.taskId
  | none => q.taskId.bind st.tasks

/-- The cursor a call starts from. -/
def Store.effective (st : Store) (q : SyncQuery) : Nat :=
  effectiveCursor ((st.sessionOf q.sessionId).bind WorkSession.syncCursorSeq) q.ack

variable {sessionId : Option Uuid} {f : WorkSession → WorkSession} {me : Option Uuid}

theorem liveSession_ok {workSession} (h : st.liveSession sessionId = .ok workSession) :
    workSession = st.sessionOf sessionId ∧ workSession.map WorkSession.id = sessionId := by
  cases sessionId with
  | none =>
    cases h
    exact ⟨rfl, rfl⟩
  | some id =>
    simp only [Store.liveSession] at h
    split at h
    · rename_i row hrow
      split at h
      · cases h
      · cases h
        refine ⟨by simp [Store.sessionOf, hrow], ?_⟩
        have := List.find?_some hrow
        simpa using this
    · cases h

theorem readTask_ok {id read} (h : readTask st principal id = .ok read) : read = st.tasks id := by
  unfold readTask at h
  split at h
  · rename_i hnone
    cases h
    exact hnone.symm
  · rename_i task htask
    obtain ⟨-, -, h⟩ := bind_ok h
    cases h
    exact htask.symm

theorem readTaskOf_ok {task} (h : st.readTaskOf principal q (st.sessionOf q.sessionId) = .ok task) :
    st.taskOf q = some task := by
  unfold Store.taskOf
  cases hrow : st.sessionOf q.sessionId with
  | some row =>
    rw [hrow] at h
    obtain ⟨read, hread, h⟩ := bind_ok h
    rw [readTask_ok hread] at h
    split at h
    · rename_i found hfound
      cases h
      exact hfound
    · cases h
  | none =>
    rw [hrow] at h
    cases hid : q.taskId with
    | none =>
      simp only [Store.readTaskOf, hid] at h
      cases h
    | some id =>
      simp only [Store.readTaskOf, hid] at h
      obtain ⟨read, hread, h⟩ := bind_ok h
      rw [readTask_ok hread] at h
      split at h
      · rename_i found hfound
        cases h
        exact hfound
      · cases h

/-- **The call rule**: what a successful call writes and answers. -/
theorem sync_ok {now r} (h : sync py st now principal q = .ok (r, st')) :
    ∃ task files, st.taskOf q = some task ∧ q.check = .ok files ∧
      st' = st.acknowledge (st.sessionOf q.sessionId) (st.effective q) now ∧
      r = answer py (st'.scope principal task q.sessionId) (st.effective q)
        (listEventsAfter st' task.projectId (some (st.effective q)) syncScanCap)
        (st'.claims task.projectId) files q.limit.toNat q.maxChars.toNat := by
  obtain ⟨files, hfiles, h⟩ := bind_ok h
  obtain ⟨workSession, hws, h⟩ := bind_ok h
  obtain ⟨hfound, hid⟩ := liveSession_ok hws
  subst hfound
  obtain ⟨task, htask, h⟩ := bind_ok h
  obtain ⟨-, -, h⟩ := bind_ok h
  cases h
  refine ⟨task, files, readTaskOf_ok htask, hfiles, rfl, ?_⟩
  rw [hid]
  rfl

/-! ## What a call leaves unchanged -/

/-- An update of a session that keeps its id and its task. -/
structure KeepsIdentity (f : WorkSession → WorkSession) : Prop where
  id : ∀ row, (f row).id = row.id
  taskId : ∀ row, (f row).taskId = row.taskId

theorem sessionOf_updateSession (hf : KeepsIdentity f) (st : Store) (id)
    (sessionId) : (st.updateSession id f).sessionOf sessionId =
      (st.sessionOf sessionId).map fun row => if row.id = id then f row else row := by
  cases sessionId with
  | none => rfl
  | some wanted =>
    have hpred : ((fun row : WorkSession => decide (row.id = wanted)) ∘
        fun row => if row.id = id then f row else row) = fun row => decide (row.id = wanted) := by
      funext row
      simp only [Function.comp_apply]
      split
      · rw [hf.id]
      · rfl
    simp only [Store.sessionOf, Store.updateSession, Option.bind_some, List.find?_map, hpred]

/-- What the calls of the session `me` see of the store, their own cursor
and activity apart. -/
structure Kept (me : Option Uuid) (st st' : Store) : Prop where
  tasks : st'.tasks = st.tasks
  events : st'.events = st.events
  related : st'.related = st.related
  own : (st'.sessionOf me).map WorkSession.taskId = (st.sessionOf me).map WorkSession.taskId
  target : ∀ principal task targetId, me.map Uuid.str ≠ some targetId →
    (st'.scope principal task me).targetState targetId =
      (st.scope principal task me).targetState targetId

theorem Kept.refl (me) (st) : Kept me st st := ⟨rfl, rfl, rfl, rfl, fun _ _ _ _ => rfl⟩

theorem Kept.trans {st''} (h : Kept me st st') (h' : Kept me st' st'') : Kept me st st'' where
  tasks := h'.tasks.trans h.tasks
  events := h'.events.trans h.events
  related := h'.related.trans h.related
  own := h'.own.trans h.own
  target := fun principal task targetId hne =>
    (h'.target principal task targetId hne).trans (h.target principal task targetId hne)

theorem Kept.claims (me) (st) (claims) : Kept me st { st with claims := claims } :=
  ⟨rfl, rfl, rfl, rfl, fun _ _ _ _ => rfl⟩

theorem Kept.updateSession (hf : KeepsIdentity f) (st)
    (id) : Kept (some id) st (st.updateSession id f) where
  tasks := rfl
  events := rfl
  related := rfl
  own := by
    rw [sessionOf_updateSession hf]
    cases st.sessionOf (some id) with
    | none => rfl
    | some row =>
      simp only [map_some, Option.some.injEq]
      split
      · exact hf.taskId row
      · rfl
  target := by
    intro principal task targetId hne
    have hid : id.str ≠ targetId := fun h => hne (by rw [← h]; rfl)
    have htask : ((fun row : WorkSession => decide (row.taskId = task.id)) ∘
        fun row => if row.id = id then f row else row) =
          fun row => decide (row.taskId = task.id) := by
      funext row
      simp only [Function.comp_apply]
      split
      · rw [hf.taskId]
      · rfl
    have hstr : ((fun row : WorkSession => decide (row.id.str = targetId)) ∘
        fun row => if row.id = id then f row else row) =
          fun row => decide (row.id.str = targetId) := by
      funext row
      simp only [Function.comp_apply]
      split
      · rw [hf.id]
      · rfl
    simp only [SyncScope.targetState, Store.scope, Store.updateSession, List.filter_map,
      htask, List.find?_map, hstr, map_map]
    -- the row found is not the one that was updated
    cases hrow : (st.sessions.filter fun row => row.taskId = task.id).find?
        fun row => row.id.str = targetId with
    | none => rfl
    | some row =>
      have hfound := List.find?_some hrow
      rw [decide_eq_true_eq] at hfound
      have hother : row.id ≠ id := fun h => hid (by rw [← h]; exact hfound)
      simp [hother]

theorem keeps_ack (seq) : KeepsIdentity fun row =>
    { row with syncCursorSeq := some (max (row.syncCursorSeq.getD 0) seq) } :=
  ⟨fun _ => rfl, fun _ => rfl⟩

theorem keeps_touch (now) : KeepsIdentity fun row => { row with lastActivityAt := some now } :=
  ⟨fun _ => rfl, fun _ => rfl⟩

theorem sessionOf_id {row} (h : st.sessionOf sessionId = some row) : sessionId = some row.id := by
  cases sessionId with
  | none => cases h
  | some id =>
    have := List.find?_some h
    rw [decide_eq_true_eq] at this
    rw [this]

theorem kept_acknowledge (st) (sessionId) (effective) (now) :
    Kept sessionId st (st.acknowledge (st.sessionOf sessionId) effective now) := by
  cases h : st.sessionOf sessionId with
  | none => exact .refl _ _
  | some row =>
    rw [sessionOf_id h]
    simp only [Store.acknowledge]
    split
    · exact .updateSession (keeps_touch now) _ _
    · exact (Kept.updateSession (keeps_ack effective) st row.id).trans
        (.updateSession (keeps_touch now) _ _)

theorem stored_acknowledge_le (st : Store) (q now) :
    (((st.acknowledge (st.sessionOf q.sessionId) (st.effective q) now).sessionOf
      q.sessionId).bind WorkSession.syncCursorSeq).getD 0 ≤ st.effective q := by
  cases h : st.sessionOf q.sessionId with
  | none =>
    simp only [Store.acknowledge, h]
    exact Nat.zero_le _
  | some row =>
    have hstored : row.syncCursorSeq.getD 0 ≤ st.effective q := by
      simp only [Store.effective, h, bind_some, effectiveCursor]
      split
      · exact le_rfl
      · exact le_max_left _ _
    simp only [Store.acknowledge]
    split
    · rename_i hsame
      simp only [Store.touchSession, sessionOf_updateSession (keeps_touch now), h,
        map_some, if_true, bind_some]
      exact hstored
    · simp only [Store.touchSession, Store.ackSyncCursor,
        sessionOf_updateSession (keeps_touch now), sessionOf_updateSession (keeps_ack _), h,
        map_some, if_true, bind_some, getD_some]
      exact max_le hstored le_rfl

/-- Scopes that match and withhold the same events. -/
structure SameScope (py : Pydantic) (scope scope' : SyncScope) : Prop where
  task : scope'.myTaskId = scope.myTaskId
  classify : ∀ e, scope'.classify py e = scope.classify py e
  pending : ∀ e, scope'.pendingElsewhere e = scope.pendingElsewhere e

theorem SameScope.answer_eq {scope scope'} (h : SameScope py scope scope') (effective)
    (scanned live files)
    (limit maxChars) : answer py scope' effective scanned live files limit maxChars =
      answer py scope effective scanned live files limit maxChars := by
  have hc : scope'.classify py = scope.classify py := funext h.classify
  have hp : scope'.pendingElsewhere = scope.pendingElsewhere := funext h.pending
  simp [answer, hc, hp, h.task]

theorem Kept.sameScope (h : Kept me st st') (task) :
    SameScope py (st.scope principal task me) (st'.scope principal task me) := by
  have hmine : (st'.scope principal task me).mySessionStr = me.map Uuid.str := rfl
  have hmine' : (st.scope principal task me).mySessionStr = me.map Uuid.str := rfl
  have htargets : ∀ e, (st'.scope principal task me).targetsMe e =
      (st.scope principal task me).targetsMe e := by
    intro e
    unfold SyncScope.targetsMe
    split
    · rfl
    · by_cases hself : me.map Uuid.str = some (e.payload.get "session_id").pyStr
      · simp [hmine, hmine', hself]
      · simp only [h.target principal task _ hself, hmine, hmine']
        rfl
  refine ⟨rfl, ?_, ?_⟩
  · intro e
    unfold SyncScope.classify
    rw [htargets e]
    simp only [Store.scope, h.related]
    rfl
  · intro e
    unfold SyncScope.pendingElsewhere
    congr 1
    split
    · rfl
    · by_cases hself : me.map Uuid.str = some (e.payload.get "session_id").pyStr
      · simp [hmine, hmine', hself]
      · simp only [h.target principal task _ hself, hmine, hmine']
        rfl

end StudioOS.Sync
