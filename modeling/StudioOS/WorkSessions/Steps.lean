import StudioOS.WorkSessions.Model

/-!
# Steps — what each statement does to the table and to its call
-/

namespace StudioOS.WorkSessions

open List Option

variable {settings : Settings} {s t : State} {act : Act}

variable {rows : List WorkSession} {sessionIn : WorkSessionCreate} {c place d : Nat}
  {next call : Call} {closes : List Found} {row : WorkSession} {now : Timestamp}

/-! ## The steps -/

/-- The sessions that a call has read and may still write. -/
def Call.founds : Call → List Found
  | .touching _ found _ => [found]
  | .replacing _ existing _ => existing.toList
  | .creating _ _ closes _ => closes
  | .ending found => [found]
  | _ => []

/-- The acts that open a call. -/
def Act.opens : Act → Bool
  | .start .. | .resume .. | .beginEnd .. => true
  | _ => false

/-- A call that no lock and no resumption belongs to, with the open sessions it has read. -/
def Call.Fresh (call : Call) : Prop :=
  call.holds = none ∧ call.resumes = none ∧ ∀ found ∈ call.founds, found.row.endedAt = none

/-- A call of `resume_or_start_session`. -/
def Call.ofResume : Call → Bool
  | .starting _ | .creating .start .. | .ending _ => false
  | _ => true

inductive Fires (settings : Settings) (s : State) : Act → State → Prop where
  | opened {act : Act} {call} (hopens : act.opens = true) (hfresh : call.Fresh)
      (hentry : ∀ entry sessionIn closes now, call ≠ .creating entry sessionIn closes now)
      (honly : ResumesOnly s act → call.ofResume = true) : Fires settings s act (s.push call)
  | locked {c : Nat} {sessionIn} (hcall : s.calls[c]? = some (.waiting sessionIn))
      (hfree : s.isLocked sessionIn.taskId = false) :
      Fires settings s (.lock c) (s.put c (.locked sessionIn))
  | found {c sessionIn existing now later} (hcall : s.calls[c]? = some (.locked sessionIn))
      (hnewest : IsNewest s.rows sessionIn existing) :
      Fires settings s (.find c existing now later)
        (s.put c (afterFind settings sessionIn
          (existing.bind fun place => s.rows[place]?.map (Found.mk place)) now later))
  | selected {c : Nat} {sessionIn now} (hcall : s.calls[c]? = some (.starting sessionIn)) :
      Fires settings s (.select c now)
        (s.put c (.creating .start sessionIn (openForAnother s.rows sessionIn) now))
  | superseded {c sessionIn existing now}
      (hcall : s.calls[c]? = some (.replacing sessionIn existing now)) :
      Fires settings s (.supersede c)
        (s.put c (.creating .resume sessionIn
          (existing.toList ++ openForAnother s.rows sessionIn) now))
  | touched {c sessionIn found now} (hcall : s.calls[c]? = some (.touching sessionIn found now)) :
      Fires settings s (.touch c) { s.put c (.committed found.place true) with
        rows := s.rows.modify found.place fun current => found.row.touch current now }
  | created {c : Nat} {handoffCursor : Option Int} {entry sessionIn closes now}
      (hcall : s.calls[c]? = some (.creating entry sessionIn closes now))
      (hlocked : entry = .start → s.isLocked sessionIn.taskId = false) :
      Fires settings s (.create c handoffCursor) { s.put c (.committed s.rows.length false) with
        rows := closeAll s.rows closes now ++ [sessionIn.session now handoffCursor] }
  | closed {c found now} (hcall : s.calls[c]? = some (.ending found)) :
      Fires settings s (.close c now)
        { s.put c (.ended found.place) with rows := closeAll s.rows [found] now }
  | finished {c place resumed} (hcall : s.calls[c]? = some (.committed place resumed)) :
      Fires settings s (.finish c) (s.put c (.returned place resumed))
  | failed {c : Nat} {call} (hcall : s.calls[c]? = some call) :
      Fires settings s (.fail c) (s.put c .failed)

theorem step_fires (h : step settings s act = some t) : Fires settings s act t := by
  cases act with
  | start principal sessionIn reads =>
    simp only [step] at h
    split at h <;> obtain rfl := some.inj h <;>
      exact .opened rfl ⟨rfl, rfl, forall_mem_nil _⟩ nofun False.elim
  | resume principal sessionIn reads =>
    simp only [step] at h
    split at h <;> obtain rfl := some.inj h <;>
      exact .opened rfl ⟨rfl, rfl, forall_mem_nil _⟩ nofun fun _ => rfl
  | lock c =>
    simp only [step] at h
    split at h
    · rename_i hcall
      split at h
      · cases h
      · rename_i hfree
        cases h
        exact .locked hcall (Bool.eq_false_iff.mpr hfree)
    · cases h
  | find c existing now later =>
    simp only [step] at h
    split at h
    · rename_i hcall
      split at h
      · rename_i hnewest
        cases h
        exact .found hcall hnewest
      · cases h
    · cases h
  | select c now =>
    simp only [step] at h
    split at h
    · rename_i hcall
      cases h
      exact .selected hcall
    · cases h
  | supersede c =>
    simp only [step] at h
    split at h
    · rename_i hcall
      cases h
      exact .superseded hcall
    · cases h
  | touch c =>
    simp only [step] at h
    split at h
    · rename_i hcall
      cases h
      exact .touched hcall
    · cases h
  | create c handoffCursor =>
    simp only [step] at h
    split at h
    · rename_i hcall
      split at h
      · cases h
      · rename_i hlocked
        cases h
        refine .created hcall ?_
        intro hentry
        exact Bool.eq_false_iff.mpr fun hlock => hlocked ⟨hentry, hlock⟩
    · cases h
  | beginEnd principal place reads =>
    simp only [step] at h
    split at h
    · cases h
      exact .opened rfl ⟨rfl, rfl, forall_mem_nil _⟩ nofun False.elim
    split at h
    · cases h
      exact .opened rfl ⟨rfl, rfl, forall_mem_nil _⟩ nofun False.elim
    · rename_i read _ hopen
      cases h
      refine .opened rfl ⟨rfl, rfl, ?_⟩ nofun False.elim
      exact forall_mem_singleton.mpr (by simpa using hopen)
  | close c now =>
    simp only [step] at h
    split at h
    · rename_i hcall
      cases h
      exact .closed hcall
    · cases h
  | finish c =>
    simp only [step] at h
    split at h
    · rename_i hcall
      cases h
      exact .finished hcall
    · cases h
  | fail c =>
    obtain ⟨call, hcall, rfl⟩ := map_eq_some_iff.mp h
    exact .failed hcall

theorem mem_openForAnother {found} : found ∈ openForAnother rows sessionIn ↔
      rows[found.place]? = some found.row ∧ found.row.OpenForAnother sessionIn := by
  simp only [openForAnother, List.mem_map, mem_filter, decide_eq_true_eq, Prod.exists]
  constructor
  · rintro ⟨row, place, ⟨hmem, hopen⟩, rfl⟩
    exact ⟨List.mem_zipIdx_iff_getElem?.mp hmem, hopen⟩
  · rintro ⟨hrow, hopen⟩
    exact ⟨found.row, found.place, ⟨List.mem_zipIdx_iff_getElem?.mpr hrow, hopen⟩, rfl⟩

/-- A session that was read to be written was read open. -/
def State.Sound (s : State) : Prop :=
  ∀ call ∈ s.calls, ∀ found ∈ call.founds, found.row.endedAt = none

theorem sound_put (hsound : s.Sound)
    (hnext : ∀ found ∈ next.founds, found.row.endedAt = none) : (s.put c next).Sound := by
  intro call hcall
  rcases mem_or_eq_of_mem_set hcall with hcall | rfl
  · exact hsound call hcall
  · exact hnext

theorem IsNewest.openFor (h : IsNewest rows sessionIn (some place)) :
    ∃ row, rows[place]? = some row ∧ row.OpenFor sessionIn := by
  obtain ⟨row, hrow, hopen, -⟩ := h
  exact ⟨row, hrow, hopen⟩

theorem afterFind_founds {existing} (hnewest : IsNewest rows sessionIn existing) (now later) :
    ∀ found ∈ (afterFind settings sessionIn
      (existing.bind fun place => rows[place]?.map (Found.mk place)) now later).founds,
      rows[found.place]? = some found.row ∧ found.row.OpenFor sessionIn := by
  cases existing with
  | none => exact forall_mem_nil _
  | some place =>
    obtain ⟨row, hrow, hopen⟩ := hnewest.openFor
    simp only [bind_some, hrow, map_some, afterFind]
    split <;> exact forall_mem_singleton.mpr ⟨hrow, hopen⟩

theorem Fires.sound (h : Fires settings s act t) (hsound : s.Sound) : t.Sound := by
  cases h with
  | opened _ hfresh =>
    intro call hcall
    rcases mem_append.mp hcall with hcall | hcall
    · exact hsound call hcall
    · exact mem_singleton.mp hcall ▸ hfresh.2.2
  | locked => exact sound_put hsound (forall_mem_nil _)
  | found hcall hnewest =>
    refine sound_put hsound ?_
    intro found hfound
    exact (afterFind_founds hnewest _ _ found hfound).2.2.1
  | selected =>
    refine sound_put hsound ?_
    intro found hfound
    exact (mem_openForAnother.mp hfound).2.2.1
  | superseded hcall =>
    refine sound_put hsound ?_
    intro found hfound
    rcases mem_append.mp hfound with hold | hnew
    · exact hsound _ (mem_of_getElem? hcall) found hold
    · exact (mem_openForAnother.mp hnew).2.2.1
  | touched | created | closed | finished | failed => exact sound_put hsound (forall_mem_nil _)

/-! ## What becomes of a row -/

/-- The rows are one session's. -/
def WorkSession.Alike (a b : WorkSession) : Prop :=
  a.taskId = b.taskId ∧ a.machineId = b.machineId ∧ a.agentId = b.agentId

theorem WorkSession.Alike.symm {a b : WorkSession} (h : a.Alike b) : b.Alike a :=
  ⟨h.1.symm, h.2.1.symm, h.2.2.symm⟩

theorem WorkSession.Alike.trans {a b c : WorkSession} (h : a.Alike b) (h' : b.Alike c) :
    a.Alike c :=
  ⟨h.1.trans h'.1, h.2.1.trans h'.2.1, h.2.2.trans h'.2.2⟩

theorem closeAll_getElem? (rows closes now)
    (place) : (closeAll rows closes now)[place]? = rows[place]?.map fun current =>
      match closes.find? (·.place = place) with
      | none => current
      | some found => WorkSession.close found.row current now :=
  List.getElem?_mapIdx

@[simp] theorem closeAll_length
    (rows closes now) : (closeAll rows closes now).length = rows.length := length_mapIdx

theorem closeAll_row (now) (hclosed : ∀ found ∈ closes, found.row.endedAt = none)
    (hrow : rows[place]? = some row) :
    ∃ row', (closeAll rows closes now)[place]? = some row' ∧ row'.Alike row ∧
      ((place ∉ closes.map Found.place ∧ row'.endedAt = row.endedAt) ∨
        (place ∈ closes.map Found.place ∧ row'.endedAt = some now)) := by
  rw [closeAll_getElem?, hrow]
  cases hfind : closes.find? (·.place = place) with
  | none =>
    refine ⟨row, rfl, ⟨rfl, rfl, rfl⟩, .inl ⟨?_, rfl⟩⟩
    intro hmem
    obtain ⟨found, hfound, hplace⟩ := List.mem_map.mp hmem
    exact absurd hplace (by simpa using List.find?_eq_none.mp hfind found hfound)
  | some found =>
    have hmem := List.mem_of_find?_eq_some hfind
    have hplace : found.place = place := by simpa using List.find?_some hfind
    refine ⟨_, rfl, ⟨rfl, rfl, rfl⟩, .inr ⟨List.mem_map.mpr ⟨found, hmem, hplace⟩, ?_⟩⟩
    show flushed found.row.endedAt (some now) row.endedAt = some now
    rw [hclosed found hmem, flushed_of_ne (by simp)]

theorem closes_of_opens (h : act.opens = true) : s.closes act = [] := by
  cases act <;> first | rfl | cases h

theorem closes_create {handoffCursor entry}
    (hcall : s.calls[c]? = some (.creating entry sessionIn closes now)) :
    s.closes (.create c handoffCursor) = closes.map fun found => (found.place, now) := by
  simp [State.closes, hcall]

theorem closes_close {found} (hcall : s.calls[c]? = some (.ending found)) :
    s.closes (.close c now) = [(found.place, now)] := by
  simp [State.closes, hcall]

/-- A row stays the row of its session; a step that does not close the session
leaves the end as it is, and one that does sets it. -/
def Moves (s t : State) (act : Act) (place : Nat) (row : WorkSession) : Prop :=
  ∃ row', t.rows[place]? = some row' ∧ row'.Alike row ∧
    ((place ∉ (s.closes act).map Prod.fst ∧ row'.endedAt = row.endedAt) ∨
      ∃ now, (place, now) ∈ s.closes act ∧ row'.endedAt = some now)

theorem Moves.of_same (hrow : t.rows[place]? = some row)
    (hcloses : s.closes act = []) : Moves s t act place row :=
  ⟨row, hrow, ⟨rfl, rfl, rfl⟩, .inl ⟨by simp [hcloses], rfl⟩⟩

theorem Moves.of_closeAll (hclosed : ∀ found ∈ closes, found.row.endedAt = none)
    (hrow : s.rows[place]? = some row) (hrows : ∃ more, t.rows = closeAll s.rows closes now ++ more)
    (hcloses : s.closes act = closes.map fun found => (found.place, now)) :
    Moves s t act place row := by
  obtain ⟨row', hrow', halike, hended⟩ := closeAll_row now hclosed hrow
  obtain ⟨more, hrows⟩ := hrows
  refine ⟨row', ?_, halike, ?_⟩
  · rw [hrows, List.getElem?_append_left (List.getElem?_eq_some_iff.mp hrow').1]
    exact hrow'
  · rw [hcloses, List.map_map]
    rcases hended with ⟨hnot, hended⟩ | ⟨hmem, hended⟩
    · exact .inl ⟨hnot, hended⟩
    · obtain ⟨found, hfound, rfl⟩ := List.mem_map.mp hmem
      exact .inr ⟨now, List.mem_map.mpr ⟨found, hfound, rfl⟩, hended⟩

theorem Fires.moves (h : Fires settings s act t) (hsound : s.Sound)
    (hrow : s.rows[place]? = some row) : Moves s t act place row := by
  cases h with
  | opened hopens => exact .of_same hrow (closes_of_opens hopens)
  | locked | found | selected | superseded => exact .of_same hrow rfl
  | touched =>
    rename_i found now _
    by_cases hplace : found.place = place
    · exact ⟨found.row.touch row now, by simp [hplace, hrow], ⟨rfl, rfl, rfl⟩,
        .inl ⟨not_mem_nil, rfl⟩⟩
    · refine .of_same ?_ rfl
      show (s.rows.modify found.place _)[place]? = some row
      rw [List.getElem?_modify_ne _ _ hplace]
      exact hrow
  | created hcall =>
    exact .of_closeAll (fun found => hsound _ (mem_of_getElem? hcall) found) hrow
      ⟨_, rfl⟩ (closes_create hcall)
  | closed hcall =>
    refine .of_closeAll (fun found => hsound _ (mem_of_getElem? hcall) found) hrow
      ⟨[], (append_nil _).symm⟩ (closes_close hcall)
  | finished | failed => exact .of_same hrow rfl

theorem Fires.new_row (h : Fires settings s act t)
    (hrow : t.rows[place]? = some row) : (∃ old, s.rows[place]? = some old) ∨
      ∃ c handoffCursor entry sessionIn closes now, act = .create c handoffCursor ∧
        s.calls[c]? = some (.creating entry sessionIn closes now) ∧
        (entry = .start → s.isLocked sessionIn.taskId = false) ∧ place = s.rows.length ∧
        row = sessionIn.session now handoffCursor := by
  have hold : place < s.rows.length → ∃ old, s.rows[place]? = some old := fun hlt =>
    ⟨_, List.getElem?_eq_getElem hlt⟩
  have hlt := (List.getElem?_eq_some_iff.mp hrow).1
  cases h with
  | touched => exact .inl (hold (by simpa using hlt))
  | created hcall hlocked =>
    by_cases hnew : place < s.rows.length
    · exact .inl (hold hnew)
    rw [List.getElem?_append_right (by simpa using hnew)] at hrow
    have hlast := (List.getElem?_eq_some_iff.mp hrow).2
    have hplace : place = s.rows.length := by
      simp at hlt
      omega
    refine .inr ⟨_, _, _, _, _, _, rfl, hcall, hlocked, hplace, ?_⟩
    rw [← hlast]
    simp
  | closed => exact .inl (hold (by simpa using hlt))
  | _ => exact .inl (hold hlt)

/-! ## The locks -/

/-- No two calls have the row of one task locked. -/
def State.Exclusive (s : State) : Prop :=
  ∀ (c d : Nat) (a b : Call), s.calls[c]? = some a → s.calls[d]? = some b →
    ∀ taskId, a.holds = some taskId → b.holds = some taskId → c = d

theorem put_call (h : (s.put c next).calls[d]? = some call) :
    (d = c ∧ call = next) ∨ (d ≠ c ∧ s.calls[d]? = some call) := by
  rw [State.put, List.getElem?_set] at h
  by_cases hd : c = d
  · rw [if_pos hd] at h
    split at h
    · exact .inl ⟨hd.symm, (some.inj h).symm⟩
    · cases h
  · rw [if_neg hd] at h
    exact .inr ⟨Ne.symm hd, h⟩

theorem push_call (h : (s.push next).calls[d]? = some call) :
    call = next ∨ s.calls[d]? = some call := by
  rcases mem_append.mp (mem_of_getElem? h) with _ | hnew
  · by_cases hd : d < s.calls.length
    · rw [State.push, List.getElem?_append_left hd] at h
      exact .inr h
    · rw [State.push, List.getElem?_append_right (by omega)] at h
      exact .inl (mem_singleton.mp (mem_of_getElem? h))
  · exact .inl (mem_singleton.mp hnew)

theorem exclusive_put (h : s.Exclusive)
    (hnext : ∀ taskId, next.holds = some taskId → ∀ (d : Nat) (b : Call), d ≠ c →
      s.calls[d]? = some b → b.holds ≠ some taskId) : (s.put c next).Exclusive := by
  intro i j a b ha hb taskId hholds hholds'
  rcases put_call ha with ⟨hi, hnew⟩ | ⟨hi, hold⟩
  · rcases put_call hb with ⟨hj, -⟩ | ⟨hj, hold⟩
    · rw [hi, hj]
    · exact absurd hholds' (hnext taskId (hnew ▸ hholds) j b hj hold)
  · rcases put_call hb with ⟨-, hnew⟩ | ⟨-, hold'⟩
    · exact absurd hholds (hnext taskId (hnew ▸ hholds') i a hi hold)
    · exact h i j a b hold hold' taskId hholds hholds'

theorem exclusive_keep (h : s.Exclusive)
    (hcall : s.calls[c]? = some call) (hnext : next.holds = call.holds ∨ next.holds = none) :
    (s.put c next).Exclusive := by
  refine exclusive_put h ?_
  intro taskId hholds d b hd hb hb'
  rcases hnext with hnext | hnext
  · exact hd (h d c b call hb hcall taskId hb' (hnext ▸ hholds))
  · rw [hnext] at hholds
    cases hholds

theorem afterFind_holds (sessionIn existing now later) :
    (afterFind settings sessionIn existing now later).holds = some sessionIn.taskId := by
  cases existing with
  | none => rfl
  | some found =>
    simp only [afterFind]
    split <;> rfl

theorem Fires.exclusive (h : Fires settings s act t) (hex : s.Exclusive) : t.Exclusive := by
  cases h with
  | opened _ hfresh =>
    intro i j a b ha hb taskId hholds hholds'
    have hnone : ∀ call : Call, call.holds = some taskId → call.Fresh → False := by
      intro call hcall hfresh
      rw [hfresh.1] at hcall
      cases hcall
    rcases push_call ha with rfl | ha
    · exact (hnone _ hholds hfresh).elim
    · rcases push_call hb with rfl | hb
      · exact (hnone _ hholds' hfresh).elim
      · exact hex i j a b ha hb taskId hholds hholds'
  | locked hcall hfree =>
    refine exclusive_put hex ?_
    intro taskId hholds d b _ hb hb'
    cases hholds
    have := List.any_eq_false.mp hfree b (mem_of_getElem? hb)
    simp [hb'] at this
  | found hcall => exact exclusive_keep hex hcall (.inl (afterFind_holds ..))
  | selected hcall => exact exclusive_keep hex hcall (.inr rfl)
  | superseded hcall => exact exclusive_keep hex hcall (.inl rfl)
  | touched hcall => exact exclusive_keep hex hcall (.inr rfl)
  | created hcall => exact exclusive_keep hex hcall (.inr rfl)
  | closed hcall | finished hcall | failed hcall => exact exclusive_keep hex hcall (.inr rfl)

theorem Fires.open_row (h : Fires settings s act t) (hsound : s.Sound)
    {old : WorkSession} (hold : s.rows[place]? = some old) (hrow : t.rows[place]? = some row)
    (hopen : row.endedAt = none) :
    row.Alike old ∧ old.endedAt = none ∧ place ∉ (s.closes act).map Prod.fst := by
  obtain ⟨row', hrow', halike, hended⟩ := h.moves hsound hold
  obtain rfl : row' = row := some.inj (hrow'.symm.trans hrow)
  rcases hended with ⟨hnot, hended⟩ | ⟨now, -, hended⟩
  · exact ⟨halike, hended ▸ hopen, hnot⟩
  · rw [hopen] at hended
    cases hended

/-- While a call has the row of a task locked, no session of the task is created
by another one. -/
theorem Fires.locked_row (h : Fires settings s act t) (hsound : s.Sound) (hex : s.Exclusive)
    {before after : Call} (hbefore : s.calls[d]? = some before)
    (hafter : t.calls[d]? = some after) {taskId : Uuid} (hholds : before.holds = some taskId)
    (hholds' : after.holds = some taskId)
    (hrow : t.rows[place]? = some row) (htask : row.taskId = taskId) (hopen : row.endedAt = none) :
    ∃ old, s.rows[place]? = some old ∧ row.Alike old ∧ old.endedAt = none := by
  rcases h.new_row hrow with ⟨old, hold⟩ | ⟨c, cursor, entry, sessionIn, closes, now, rfl, hcall,
    hlocked, -, rfl⟩
  · obtain ⟨halike, hopen, -⟩ := h.open_row hsound hold hrow hopen
    exact ⟨old, hold, halike, hopen⟩
  have htask : sessionIn.taskId = taskId := htask
  cases entry with
  | start =>
    have hfree := List.any_eq_false.mp (hlocked rfl) before (mem_of_getElem? hbefore)
    exact absurd (decide_eq_true (htask ▸ hholds)) hfree
  | resume =>
    -- the creator is the call itself, and has no lock any more
    obtain rfl : c = d := hex c d _ before hcall hbefore taskId (congrArg some htask) hholds
    cases h with
    | opened hopens => cases hopens
    | created hcreated =>
      have hc := (List.getElem?_eq_some_iff.mp hcreated).1
      obtain rfl : Call.committed s.rows.length false = after := by
        simpa [State.put, hc] using hafter
      cases hholds'

end StudioOS.WorkSessions
