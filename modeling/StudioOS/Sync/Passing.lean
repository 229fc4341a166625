import StudioOS.Sync.Signals

/-!
# Sync — Passing

What one step does to the cursors (`Effect`): a session is started at the
handoff cursor of its task, a call of `sync` moves the cursor of its own
session to where the call began, and a handoff raises the handoff cursor to
the cursor of a session of the task.
-/

namespace StudioOS.Sync

open Option Function Authz Runs

variable {py : Pydantic} {w w' : World} {f : WorkSession → WorkSession} {id : Uuid}
  {now : Timestamp} {principal : Principal}

/-- A cursor of the session, acknowledged or received, is at or past
`seq`. -/
def World.Passed (w : World) (id : Uuid) (seq : Nat) : Prop :=
  seq ≤ w.cursor id ∨ ∃ r ∈ w.answers id, seq ≤ r.nextCursor

/-- The session whose cursor a step may move. -/
def Act.session : Act → Option Uuid
  | .start _ _ id _ => some id
  | .sync _ q _ => q.sessionId
  | _ => none

/-- What a step leaves as it was, but for the session `me`. -/
structure Effect (w w' : World) (me : Option Uuid) : Prop where
  tasks : w'.store.tasks = w.store.tasks
  logs : ∀ p, w'.store.events p = w.store.events p ∨
    ∃ e, w.store.NextSeq p e.seq ∧ w'.store.events p = w.store.events p ++ [e]
  rows : ∀ id row, w.row id = some row → ∃ row', w'.row id = some row' ∧
    row'.taskId = row.taskId ∧ (row.endedAt.isSome = true → row'.endedAt.isSome = true)
  born : ∀ id, me ≠ some id → (w'.row id).isSome = true → (w.row id).isSome = true
  apart : ∀ id, me ≠ some id → w'.cursor id = w.cursor id ∧ w'.answers id = w.answers id ∧
    w'.baseline id = w.baseline id
  grows : ∀ id, (w.row id).isSome = true →
    w.cursor id ≤ w'.cursor id ∧ ∃ new, w'.answers id = new ++ w.answers id
  handed : ∀ t, w'.handoffCursor t = w.handoffCursor t ∨
    ∃ id row, w.row id = some row ∧ row.taskId = t ∧
      w'.handoffCursor t = some (max ((w.handoffCursor t).getD 0) (w.cursor id))

/-- An update of a row that keeps its task and its cursor, and does not
open it again. -/
structure Mild (f : WorkSession → WorkSession) : Prop where
  taskId : ∀ row, (f row).taskId = row.taskId
  cursor : ∀ row, (f row).syncCursorSeq = row.syncCursorSeq
  ended : ∀ row, row.endedAt.isSome = true → (f row).endedAt.isSome = true

theorem Mild.same : Mild fun row => row := ⟨fun _ => rfl, fun _ => rfl, fun _ h => h⟩

theorem cursor_of_map (hf : Mild f)
    (h : w'.row id = (w.row id).map f) : w'.cursor id = w.cursor id := by
  rw [World.cursor, World.cursor, h]
  cases w.row id with
  | none => rfl
  | some row => simp [hf.cursor]

theorem rows_of_map (hf : Mild f) {row} (h : w'.row id = (w.row id).map f)
    (hrow : w.row id = some row) :
    ∃ row', w'.row id = some row' ∧ row'.taskId = row.taskId ∧
      (row.endedAt.isSome = true → row'.endedAt.isSome = true) := by
  rw [h, hrow]
  exact ⟨f row, rfl, hf.taskId row, hf.ended row⟩

theorem sessionOf_map (hid : ∀ row, (f row).id = row.id) (rows : List WorkSession) (id) :
    (rows.map f).find? (fun row => row.id = id) = (rows.find? fun row => row.id = id).map f := by
  have hpred : ((fun row : WorkSession => decide (row.id = id)) ∘ f) =
      fun row => decide (row.id = id) := by
    funext row
    simp [comp_apply, hid]
  rw [List.find?_map, hpred]

theorem row_updateSession (hf : KeepsIdentity f) (me id) :
    (w.store.updateSession me f).sessionOf (some id) =
      (w.row id).map fun row => if row.id = me then f row else row :=
  sessionOf_updateSession hf w.store me (some id)

theorem keeps_close (now) : KeepsIdentity fun row : WorkSession =>
    if row.endedAt.isSome then row else row.close now where
  id := by
    intro row
    split <;> rfl
  taskId := by
    intro row
    split <;> rfl

theorem mild_if (hf : Mild f) (p)
    [DecidablePred p] : Mild fun row => if p row then f row else row where
  taskId := by
    intro row
    split
    · exact hf.taskId row
    · rfl
  cursor := by
    intro row
    split
    · exact hf.cursor row
    · rfl
  ended := by
    intro row h
    split
    · exact hf.ended row h
    · exact h

theorem mild_close (now) : Mild fun row : WorkSession => row.close now :=
  ⟨fun _ => rfl, fun _ => rfl, fun _ _ => rfl⟩

theorem mild_close_open (now) : Mild fun row : WorkSession =>
    if row.endedAt.isSome then row else row.close now where
  taskId := by
    intro row
    split <;> rfl
  cursor := by
    intro row
    split <;> rfl
  ended := by
    intro row h
    rw [if_pos h]
    exact h

theorem mild_touch (now) : Mild fun row : WorkSession => { row with lastActivityAt := some now } :=
  ⟨fun _ => rfl, fun _ => rfl, fun _ h => h⟩

theorem effect_of_map (hf : Mild f)
    (hrow : ∀ id, w'.row id = (w.row id).map f) (htasks : w'.store.tasks = w.store.tasks)
    (hlogs : ∀ p, w'.store.events p = w.store.events p ∨
      ∃ e, w.store.NextSeq p e.seq ∧ w'.store.events p = w.store.events p ++ [e])
    (hseen : w'.answers = w.answers ∧ w'.baseline = w.baseline)
    (hhanded : w'.handoffCursor = w.handoffCursor) : Effect w w' none where
  tasks := htasks
  logs := hlogs
  rows := fun id _ h => rows_of_map hf (hrow id) h
  born := by
    intro id _ h
    rw [hrow id, isSome_map] at h
    exact h
  apart := by
    intro id _
    rw [hseen.1, hseen.2]
    exact ⟨cursor_of_map hf (hrow id), rfl, rfl⟩
  grows := by
    intro id _
    rw [hseen.1]
    exact ⟨(cursor_of_map hf (hrow id)).ge, [], rfl⟩
  handed := fun t => .inl (by rw [hhanded])

theorem effect_close (w) (id) (now) : Effect w (w.close id now) none :=
  effect_of_map (mild_if (mild_close_open now) fun row => row.id = id)
    (fun x => row_updateSession (keeps_close now) id x) rfl (fun _ => .inl rfl) ⟨rfl, rfl⟩ rfl

theorem effect_endSession (h : w.endSession principal id now = .ok w') : Effect w w' none := by
  unfold World.endSession at h
  split at h
  · cases h
  · obtain ⟨-, -, h⟩ := bind_ok h
    obtain ⟨-, -, h⟩ := bind_ok h
    cases h
    exact effect_close w id now

theorem events_append {st : Store} {projectId : Uuid} {event : Event}
    (hnext : st.NextSeq projectId event.seq) (p : Uuid) :
    (st.append projectId event).events p = st.events p ∨
      ∃ e, st.NextSeq p e.seq ∧ (st.append projectId event).events p = st.events p ++ [e] := by
  by_cases hp : p = projectId
  · subst hp
    exact .inr ⟨event, hnext, update_self ..⟩
  · exact .inl (update_of_ne hp ..)

theorem row_id {row} (h : w.row id = some row) : row.id = id := by
  have := sessionOf_id h
  exact (some.inj this).symm

theorem emit_ok {body eventId seq} (h : w.emit principal body eventId seq now = .ok w') :
    ∃ target, w.store.tasks body.taskId = some target ∧
      (∀ id ∈ body.sessionId, w.targetSession target.id id = true) ∧ w' = { w with
        store := (w.store.append target.projectId
          (body.event principal eventId seq)).touchSession body.fromSessionId now } := by
  obtain ⟨-, -, h⟩ := bind_ok h
  obtain ⟨emitter, hemitter, h⟩ := bind_ok h
  have hid : emitter.id = body.fromSessionId := by
    unfold World.emitter at hemitter
    split at hemitter
    · rename_i row hrow
      obtain ⟨-, hemitter⟩ := guard_ok hemitter
      cases hemitter
      exact row_id hrow
    · cases hemitter
  obtain ⟨emitterTask, -, h⟩ := bind_ok h
  cases emitterTask with
  | none => cases h
  | some emitterTask =>
    obtain ⟨-, -, h⟩ := bind_ok h
    obtain ⟨target, htarget, h⟩ := bind_ok h
    cases target with
    | none => cases h
    | some target =>
      obtain ⟨hproject, h⟩ := guard_ok h
      obtain ⟨hsession, h⟩ := guard_ok h
      cases h
      rw [hid, ← not_not.mp hproject]
      refine ⟨target, (readTask_ok htarget).symm, ?_, rfl⟩
      intro id hsome
      rw [hsome] at hsession
      simpa using hsession

theorem effect_emit {body eventId seq target} (htarget : w.store.tasks body.taskId = some target)
    (hnext : w.store.NextSeq target.projectId seq)
    (h : w.emit principal body eventId seq now = .ok w') : Effect w w' none := by
  obtain ⟨target', htarget', -, rfl⟩ := emit_ok h
  rw [htarget] at htarget'
  cases htarget'
  exact effect_of_map (mild_if (mild_touch now) fun row => row.id = body.fromSessionId)
    (fun x => sessionOf_updateSession (keeps_touch now) (w.store.append target.projectId
      (body.event principal eventId seq)) body.fromSessionId (some x)) rfl
    (fun p => events_append hnext p) ⟨rfl, rfl⟩ rfl

/-! ## Steps that move a cursor -/

theorem handOver_ok (h : w.handOver principal id = .ok w') :
    w' = w ∨ ∃ row, w.row id = some row ∧ w' = w.ackHandoffCursor row.taskId (w.cursor id) := by
  unfold World.handOver at h
  split at h
  · cases h
  rename_i row hrow
  obtain ⟨-, -, h⟩ := bind_ok h
  obtain ⟨-, h⟩ := guard_ok h
  cases hcursor : row.syncCursorSeq with
  | none =>
    rw [hcursor] at h
    cases h
    exact .inl rfl
  | some seq =>
    rw [hcursor] at h
    cases h
    refine .inr ⟨row, hrow, ?_⟩
    rw [World.cursor_of_row hrow, hcursor]
    rfl

theorem effect_handOver (h : w.handOver principal id = .ok w') : Effect w w' none := by
  rcases handOver_ok h with rfl | ⟨row, hrow, rfl⟩
  · exact effect_of_map Mild.same (fun id => by simp) rfl
      (fun _ => .inl rfl) ⟨rfl, rfl⟩ rfl
  refine ⟨rfl, fun _ => .inl rfl, fun id row h => ⟨row, h, rfl, fun h => h⟩, fun _ _ h => h,
    fun _ _ => ⟨rfl, rfl, rfl⟩, fun _ _ => ⟨le_rfl, [], rfl⟩, ?_⟩
  intro t
  by_cases ht : t = row.taskId
  · subst ht
    exact .inr ⟨id, row, hrow, rfl, update_self ..⟩
  · exact .inl (update_of_ne ht ..)

theorem row_append (hid : ∀ row, (f row).id = row.id) {new}
    (hsessions : w'.store.sessions = w.store.sessions.map f ++ [new])
    (id) : w'.row id = ((w.row id).map f).or (if new.id = id then some new else none) := by
  show (w'.store.sessions.find? fun row => row.id = id) = _
  rw [hsessions, List.find?_append, sessionOf_map hid]
  by_cases hnew : new.id = id
  · rw [List.find?_cons_of_pos (by simp [hnew]), if_pos hnew]
    rfl
  · rw [List.find?_cons_of_neg (by simp [hnew]), if_neg hnew]
    rfl

/-- What `_close_sessions_for_another_identity` does to a row. -/
def World.closing (w : World) (sessionIn : WorkSessionCreate) (now : Timestamp)
    (row : WorkSession) : WorkSession :=
  if w.supersededBy sessionIn row then row.close now else row

theorem World.closing_id (w : World)
    (sessionIn now row) : (w.closing sessionIn now row).id = row.id := by
  unfold World.closing
  split <;> rfl

theorem World.mild_closing (w : World) (sessionIn now) : Mild (w.closing sessionIn now) :=
  mild_if (mild_close now) fun row => w.supersededBy sessionIn row = true

theorem start_ok {sessionIn} (hnew : (w.row id).isSome = false)
    (h : w.startSession principal sessionIn id now = .ok w') :
    Effect w w' (some id) ∧ (∃ row, w'.row id = some row ∧ row.taskId = sessionIn.taskId) ∧
      w'.cursor id = (w.handoffCursor sessionIn.taskId).getD 0 ∧ w'.answers id = [] ∧
      w'.baseline id = (w.handoffCursor sessionIn.taskId).getD 0 ∧
      w'.handoffCursor = w.handoffCursor := by
  obtain ⟨-, -, h⟩ := bind_ok h
  obtain ⟨-, -, h⟩ := bind_ok h
  obtain ⟨-, h⟩ := guard_ok h
  have hw := Except.ok.inj h
  have hrow : ∀ x, w'.row x = _ := row_append (w.closing_id sessionIn now) (by rw [← hw]; rfl)
  rw [isSome_eq_false_iff, isNone_iff_eq_none] at hnew
  have hmild := w.mild_closing sessionIn now
  have hown := hrow id
  rw [hnew, if_pos rfl, map_none, none_or] at hown
  have hother : ∀ x, some id ≠ some x → w'.row x = (w.row x).map (w.closing sessionIn now) := by
    intro x hx
    rw [hrow x, if_neg fun heq => hx (congrArg some heq), or_none]
  have hapart : ∀ x, some id ≠ some x → w'.cursor x = w.cursor x ∧ w'.answers x = w.answers x ∧
      w'.baseline x = w.baseline x := by
    intro x hx
    have hne : x ≠ id := fun heq => hx (by rw [heq])
    refine ⟨cursor_of_map hmild (hother x hx), ?_, ?_⟩
    · rw [← hw]
      exact update_of_ne hne ..
    · rw [← hw]
      exact update_of_ne hne ..
  refine ⟨⟨?_, ?_, ?_, ?_, hapart, ?_, ?_⟩, ⟨_, hown, rfl⟩, ?_, ?_, ?_, ?_⟩
  · rw [← hw]
  · intro p
    rw [← hw]
    exact .inl rfl
  · intro x row hx
    by_cases hid : some id = some x
    · cases hid
      rw [hnew] at hx
      cases hx
    · exact rows_of_map hmild (hother x hid) hx
  · intro x hx hsome
    rw [hother x hx, isSome_map] at hsome
    exact hsome
  · intro x hsome
    obtain ⟨hcursor, hanswers, -⟩ := hapart x (by rintro ⟨⟩; simp [hnew] at hsome)
    exact ⟨hcursor.ge, [], hanswers⟩
  · intro t
    rw [← hw]
    exact .inl rfl
  · rw [World.cursor, hown]
    rfl
  · rw [← hw]
    exact update_self ..
  · rw [← hw]
    exact update_self ..
  · rw [← hw]

theorem map_other {me} (h : id ≠ me) :
    ((w.row id).map fun row => if row.id = me then f row else row) = w.row id := by
  cases hrow : w.row id with
  | none => rfl
  | some row =>
    have hid := row_id hrow
    rw [map_some, if_neg (by rw [hid]; exact h)]

theorem row_acknowledge {row me effective now} (hrow : w.row me = some row)
    (hlow : w.cursor me ≤ effective) :
    let st := w.store.acknowledge (some row) effective now
    (∀ id, id ≠ me → st.sessionOf (some id) = w.row id) ∧
      st.sessionOf (some me) =
        some { row with syncCursorSeq := some effective, lastActivityAt := some now } := by
  have hid := row_id hrow
  have hrow' : w.store.sessionOf (some me) = some row := hrow
  rw [World.cursor_of_row hrow] at hlow
  simp only [Store.acknowledge]
  split
  · rename_i hsame
    refine ⟨fun id hne => ?_, ?_⟩
    · rw [Store.touchSession, row_updateSession (keeps_touch now), hid]
      exact map_other hne
    · rw [Store.touchSession, row_updateSession (keeps_touch now), hrow]
      simp [hsame]
  · have hmax : max (row.syncCursorSeq.getD 0) effective = effective := max_eq_right hlow
    refine ⟨fun id hne => ?_, ?_⟩
    · rw [Store.touchSession, sessionOf_updateSession (keeps_touch now), Store.ackSyncCursor,
        row_updateSession (keeps_ack effective), hid, map_other hne]
      exact map_other hne
    · rw [Store.touchSession, sessionOf_updateSession (keeps_touch now), Store.ackSyncCursor,
        row_updateSession (keeps_ack effective), hrow]
      simp [hmax]

theorem acknowledge_rest (st : Store) (row) (effective) (now) :
    (st.acknowledge (some row) effective now).tasks = st.tasks ∧
      (st.acknowledge (some row) effective now).events = st.events := by
  simp only [Store.acknowledge]
  split <;> exact ⟨rfl, rfl⟩

theorem effect_sync {q me} (hq : q.sessionId = some me) (h : w.sync py principal q now = .ok w') :
    ∃ row task r, Call py w principal q me row task (w.store.effective q) r ∧
      Effect w w' (some me) ∧ w'.cursor me = w.store.effective q ∧
      w'.answers me = r :: w.answers me ∧ w'.baseline = w.baseline ∧
      w'.handoffCursor = w.handoffCursor := by
  obtain ⟨row, task, r, hcall, rfl⟩ := World.sync_named hq h
  have hlow : w.cursor me ≤ w.store.effective q := by
    rw [hcall.starts]
    exact le_max_left _ _
  obtain ⟨hothers, hown⟩ := @row_acknowledge w row me (w.store.effective q) now hcall.found hlow
  obtain ⟨htasks, hevents⟩ := acknowledge_rest w.store row (w.store.effective q) now
  have hcursor : ∀ (w' : World) id, w'.row id = w.row id → w'.cursor id = w.cursor id :=
    fun w' id heq => congrArg (fun row : Option WorkSession =>
      (row.bind WorkSession.syncCursorSeq).getD 0) heq
  refine ⟨row, task, r, hcall, ⟨htasks, ?_, ?_, ?_, ?_, ?_, fun _ => .inl rfl⟩, ?_, ?_, rfl, rfl⟩
  · intro p
    exact .inl (congrFun hevents p)
  · intro id found hfound
    by_cases hid : id = me
    · subst hid
      rw [hcall.found] at hfound
      cases hfound
      exact ⟨_, hown, rfl, fun h => h⟩
    · exact ⟨found, (hothers id hid).trans hfound, rfl, fun h => h⟩
  · intro id hid hsome
    rw [← hothers id fun heq => hid (congrArg some heq.symm)]
    exact hsome
  · intro id hid
    have hne : id ≠ me := fun heq => hid (congrArg some heq.symm)
    exact ⟨hcursor _ id (hothers id hne), update_of_ne hne .., rfl⟩
  · intro id _
    by_cases hid : id = me
    · subst hid
      refine ⟨?_, [r], update_self ..⟩
      rw [World.cursor]
      exact hlow.trans_eq (congrArg (fun row : Option WorkSession =>
        (row.bind WorkSession.syncCursorSeq).getD 0) hown).symm
    · exact ⟨le_of_eq (Eq.symm (hcursor _ id (hothers id hid))), [], update_of_ne hid ..⟩
  · rw [World.cursor]
    exact congrArg (fun row : Option WorkSession =>
      (row.bind WorkSession.syncCursorSeq).getD 0) hown
  · exact update_self ..

theorem sync_stateless {q} (hq : q.sessionId = none)
    (h : w.sync py principal q now = .ok w') : w' = w := by
  obtain ⟨⟨r, st⟩, hsync, h⟩ := bind_ok h
  cases h
  obtain ⟨-, -, -, -, hst, -⟩ := sync_ok hsync
  rw [hq] at hst ⊢
  rw [hst]
  rfl

theorem toOption_ok {α ε : Type} {x : Except ε α} {a} (h : x.toOption = some a) : x = .ok a := by
  cases x with
  | error e => cases h
  | ok b =>
    cases h
    rfl

/-- **What every step leaves as it was.** -/
theorem effect_step {act} (h : w.step py act = some w') : Effect w w' act.session := by
  cases act with
  | start principal sessionIn id now =>
    simp only [World.step] at h
    split at h
    · cases h
    · rename_i hnew
      exact (start_ok (Bool.eq_false_iff.mpr hnew) (toOption_ok h)).1
  | sync principal q now =>
    cases hq : q.sessionId with
    | none =>
      rw [sync_stateless hq (toOption_ok h), Act.session, hq]
      exact effect_of_map Mild.same (fun id => by simp) rfl (fun _ => .inl rfl) ⟨rfl, rfl⟩ rfl
    | some me =>
      obtain ⟨-, -, -, -, heffect, -⟩ := effect_sync hq (toOption_ok h)
      rw [Act.session, hq]
      exact heffect
  | emit principal body eventId seq now =>
    simp only [World.step] at h
    split at h
    · cases h
    · rename_i target htarget
      split at h
      · rename_i hnext
        exact effect_emit htarget hnext (toOption_ok h)
      · cases h
  | endSession principal id now => exact effect_endSession (toOption_ok h)
  | close id now =>
    cases h
    exact effect_close w id now
  | handOver principal id => exact effect_handOver (toOption_ok h)
  | publish projectId event =>
    simp only [World.step] at h
    split at h
    · rename_i hnext
      cases h
      exact effect_of_map Mild.same (fun id => by simp; rfl) rfl
        (fun p => events_append hnext.1 p) ⟨rfl, rfl⟩ rfl
    · cases h
  | elsewhere agents related claims =>
    cases h
    exact effect_of_map Mild.same (fun id => by simp; rfl) rfl (fun _ => .inl rfl) ⟨rfl, rfl⟩ rfl

end StudioOS.Sync
