import StudioOS.WorkSessions.Steps

/-!
# Identity — one live identity for a task and a machine

A resume reads and creates under the lock of its task, so it sees every
session it has to close; a start does not (`identity_overlap`).
-/

namespace StudioOS.WorkSessions

open List Option Authz Runs

variable {settings : Settings} {s t : State} {act : Act}

variable {row old : WorkSession} {sessionIn : WorkSessionCreate} {c place : Nat} {entry : Entry}
  {closes : List Found} {now : Timestamp} {existing : Option Found} {acts : List Act}

/-! ## Identities -/

/-- A resume that is to create a session has read every session of another identity. -/
def State.Covered (s : State) : Prop :=
  ∀ (c : Nat) (sessionIn : WorkSessionCreate) (closes : List Found) (now : Timestamp),
    s.calls[c]? = some (.creating .resume sessionIn closes now) →
      ∀ (place : Nat) (row : WorkSession), s.rows[place]? = some row →
        row.OpenForAnother sessionIn → place ∈ closes.map Found.place

theorem openForAnother_of_alike
    (h : row.OpenForAnother sessionIn) (halike : row.Alike old) (hopen : old.endedAt = none) :
    old.OpenForAnother sessionIn := by
  obtain ⟨⟨htask, hmachine⟩, -, hagent⟩ := h
  obtain ⟨htask', hmachine', hagent'⟩ := halike
  exact ⟨⟨htask' ▸ htask, hmachine' ▸ hmachine⟩, hopen, hagent' ▸ hagent⟩

theorem afterFind_cases (settings) (sessionIn existing now later) :
    (∃ found, afterFind settings sessionIn existing now later = .touching sessionIn found now) ∨
      afterFind settings sessionIn existing now later = .replacing sessionIn existing now := by
  cases existing with
  | none => exact .inr rfl
  | some found =>
    by_cases hstatus : deriveSessionStatus found.row settings later ≠ .expired
    · exact .inl ⟨found, if_pos hstatus⟩
    · exact .inr (if_neg hstatus)

/-- A call that is to create a session was, or has just read what it closes. -/
theorem Fires.creating (h : Fires settings s act t)

    (hcall : t.calls[c]? = some (.creating entry sessionIn closes now)) :
    s.calls[c]? = some (.creating entry sessionIn closes now) ∨
      (t.rows = s.rows ∧ (∀ found ∈ openForAnother s.rows sessionIn, found ∈ closes) ∧
        (entry = .resume → ∃ existing, s.calls[c]? = some (.replacing sessionIn existing now) ∧
          ∀ found ∈ existing.toList, found ∈ closes)) := by
  cases h with
  | opened _ _ hcreating _ =>
    rcases push_call hcall with hnew | hold
    · exact absurd hnew.symm (hcreating _ _ _ _)
    · exact .inl hold
  | found _ _ =>
    rcases put_call hcall with ⟨-, hnew⟩ | ⟨-, hold⟩
    · rcases afterFind_cases settings _ _ _ _ with ⟨found, hfind⟩ | hfind <;> rw [hfind] at hnew <;>
        cases hnew
    · exact .inl hold
  | selected _ =>
    rcases put_call hcall with ⟨-, hnew⟩ | ⟨-, hold⟩
    · cases hnew
      exact .inr ⟨rfl, fun _ hfound => hfound, nofun⟩
    · exact .inl hold
  | superseded hbefore =>
    rcases put_call hcall with ⟨rfl, hnew⟩ | ⟨-, hold⟩
    · cases hnew
      exact .inr ⟨rfl, fun _ hfound => mem_append_right _ hfound,
        fun _ => ⟨_, hbefore, fun _ hfound => mem_append_left _ hfound⟩⟩
    · exact .inl hold
  | _ =>
    rcases put_call hcall with ⟨-, hnew⟩ | ⟨-, hold⟩
    · cases hnew
    · exact .inl hold

theorem Fires.covered (h : Fires settings s act t) (hsound : s.Sound) (hex : s.Exclusive)
    (hcovered : s.Covered) : t.Covered := by
  intro c sessionIn closes now hcall place row hrow hopen
  rcases h.creating hcall with hold | ⟨hrows, hall, -⟩
  · obtain ⟨old, hplace, halike, hopen'⟩ :=
      h.locked_row hsound hex hold hcall rfl rfl hrow hopen.1.1 hopen.2.1
    exact hcovered c sessionIn closes now hold place old hplace
      (openForAnother_of_alike hopen halike hopen')
  · rw [hrows] at hrow
    exact List.mem_map.mpr ⟨⟨place, row⟩, hall _ (mem_openForAnother.mpr ⟨hrow, hopen⟩), rfl⟩

theorem Seen.closes_another (hseen : Seen s act) (hcovered : s.Covered) {handoffCursor}
    (hact : act = .create c handoffCursor)
    (hcall : s.calls[c]? = some (.creating entry sessionIn closes now))
    (hrow : s.rows[place]? = some row) (hopen : row.OpenForAnother sessionIn) :
    place ∈ closes.map Found.place := by
  cases entry with
  | resume => exact hcovered c sessionIn closes now hcall place row hrow hopen
  | start =>
    subst hact
    have hall := List.all_eq_true.mp (hseen _ hcall) ⟨place, row⟩
      (mem_openForAnother.mpr ⟨hrow, hopen⟩)
    simpa using hall

theorem Fires.beside_new (h : Fires settings s act t) (hsound : s.Sound) (hcovered : s.Covered)
    (hseen : Seen s act) {handoffCursor} (hact : act = .create c handoffCursor)
    (hcall : s.calls[c]? = some (.creating entry sessionIn closes now))
    (hold : s.rows[place]? = some old) (hrow : t.rows[place]? = some row)
    (hopen : row.endedAt = none) (hwork : row.SameWork sessionIn) :
    row.agentId = sessionIn.agentId := by
  by_contra hagent
  obtain ⟨halike, hopen', hnot⟩ := h.open_row hsound hold hrow hopen
  have hmem := hseen.closes_another hcovered hact hcall hold
    (openForAnother_of_alike ⟨hwork, hopen, hagent⟩ halike hopen')
  rw [hact, closes_create hcall, List.map_map] at hnot
  exact hnot hmem

/-- A step from a state of one identity keeps it exactly if a creation has
seen every session. -/
theorem Fires.oneIdentity (h : Fires settings s act t) (hsound : s.Sound)
    (hcovered : s.Covered) (hid : s.OneIdentity) : t.OneIdentity ↔ Seen s act := by
  constructor
  · intro hnext
    cases h with
    | created hcall =>
      rename_i c cursor entry sessionIn closes now hlocked
      intro call hcall'
      obtain rfl := some.inj (hcall.symm.trans hcall')
      cases entry with
      | resume => rfl
      | start =>
        refine List.all_eq_true.mpr fun found hfound => decide_eq_true ?_
        obtain ⟨hrow, hopen⟩ := mem_openForAnother.mp hfound
        by_contra hnot
        obtain ⟨row, hrow', halike, hended⟩ :=
          closeAll_row now (fun found => hsound _ (mem_of_getElem? hcall) found)
            hrow
        rcases hended with ⟨-, hended⟩ | ⟨hmem, -⟩
        · obtain ⟨⟨htask, hmachine⟩, hopen, hagent⟩ := hopen
          have hsame := hnext row (mem_append_left _ (mem_of_getElem? hrow'))
            (sessionIn.session now cursor) (mem_append_right _ (mem_singleton_self _))
            (hended.trans hopen) rfl (halike.1.trans htask) (halike.2.1.trans hmachine)
          exact hagent (halike.2.2.symm.trans hsame)
        · exact hnot hmem
    | opened hopens => cases act <;> trivial
    | _ => trivial
  · intro hseen a ha b hb hopena hopenb htask hmachine
    obtain ⟨i, ha⟩ := List.getElem?_of_mem ha
    obtain ⟨j, hb⟩ := List.getElem?_of_mem hb
    rcases h.new_row ha with ⟨olda, hi⟩ | ⟨c, cursor, entry, sessionIn, closes, now, hact, hcall,
      -, -, rfl⟩
    · rcases h.new_row hb with ⟨oldb, hj⟩ | ⟨c, cursor, entry, sessionIn, closes, now, hact, hcall,
        -, -, rfl⟩
      · obtain ⟨halikea, hopena', -⟩ := h.open_row hsound hi ha hopena
        obtain ⟨halikeb, hopenb', -⟩ := h.open_row hsound hj hb hopenb
        rw [halikea.2.2, halikeb.2.2]
        refine hid olda (mem_of_getElem? hi) oldb (mem_of_getElem? hj) hopena' hopenb' ?_ ?_
        · rw [← halikea.1, ← halikeb.1, htask]
        · rw [← halikea.2.1, ← halikeb.2.1, hmachine]
      · exact h.beside_new hsound hcovered hseen hact hcall hi ha hopena ⟨htask, hmachine⟩
    · rcases h.new_row hb with ⟨oldb, hj⟩ | ⟨c', cursor', entry', sessionIn', closes', now', hact',
        hcall', -, -, rfl⟩
      · exact (h.beside_new hsound hcovered hseen hact hcall hj hb hopenb
          ⟨htask.symm, hmachine.symm⟩).symm
      · obtain rfl : c = c' := by
          rw [hact] at hact'
          exact (Act.create.inj hact').1
        obtain ⟨-, rfl, -, -⟩ := Call.creating.inj (some.inj (hcall.symm.trans hcall'))
        rfl

theorem afterFind_resumes {later}
    (h : (afterFind settings sessionIn existing now later).resumes = some place) :
    ∃ found ∈ (afterFind settings sessionIn existing now later).founds, found.place = place := by
  cases existing with
  | none => cases h
  | some found =>
    by_cases hstatus : deriveSessionStatus found.row settings later ≠ .expired
    · simp only [afterFind, if_pos hstatus] at h ⊢
      exact ⟨found, mem_singleton_self _, some.inj h⟩
    · simp only [afterFind, if_neg hstatus] at h
      cases h

theorem Fires.resumes (h : Fires settings s act t) {call} (hcall : call ∈ t.calls)
    (hplace : call.resumes = some place) : (∃ before ∈ s.calls, before.resumes = some place) ∨
      (t.rows = s.rows ∧ ∃ row, s.rows[place]? = some row ∧ row.endedAt = none) := by
  obtain ⟨d, hcall⟩ := List.getElem?_of_mem hcall
  have hkept : ∀ before, s.calls[d]? = some before → before.resumes = some place →
      ∃ before ∈ s.calls, before.resumes = some place :=
    fun before hbefore hresumes => ⟨before, mem_of_getElem? hbefore, hresumes⟩
  cases h with
  | opened _ hfresh =>
    rcases push_call hcall with rfl | hold
    · rw [hfresh.2.1] at hplace
      cases hplace
    · exact .inl (hkept call hold hplace)
  | found _ hnewest =>
    rcases put_call hcall with ⟨-, rfl⟩ | ⟨-, hold⟩
    · obtain ⟨found, hfound, rfl⟩ := afterFind_resumes hplace
      obtain ⟨hrow, hopen⟩ := afterFind_founds hnewest _ _ found hfound
      exact .inr ⟨rfl, found.row, hrow, hopen.2.1⟩
    · exact .inl (hkept call hold hplace)
  | touched hbefore =>
    rcases put_call hcall with ⟨-, rfl⟩ | ⟨-, hold⟩
    · exact .inl ⟨_, mem_of_getElem? hbefore, hplace⟩
    · exact .inl (hkept call hold hplace)
  | _ =>
    rcases put_call hcall with ⟨-, rfl⟩ | ⟨-, hold⟩
    · cases hplace
    · exact .inl (hkept call hold hplace)

/-- A commit closes sessions for a call that resumes none, and leaves the other calls alone. -/
theorem Fires.closer (h : Fires settings s act t) {closing} (hclosing : closing ∈ s.closes act)
    {call} (hcall : call ∈ s.calls) (hplace : call.resumes = some place) : call ∈ t.calls := by
  obtain ⟨d, hcall⟩ := List.getElem?_of_mem hcall
  have hother : ∀ {c : Nat} {acting next : Call}, s.calls[c]? = some acting →
      acting.resumes = none → call ∈ (s.put c next).calls := by
    intro c acting next hacting hnone
    have hd : c ≠ d := by
      rintro rfl
      obtain rfl := some.inj (hacting.symm.trans hcall)
      rw [hnone] at hplace
      cases hplace
    refine mem_of_getElem? (i := d) ?_
    rw [State.put, List.getElem?_set_ne hd]
    exact hcall
  cases h with
  | opened hopens => simp [closes_of_opens hopens] at hclosing
  | created hacting | closed hacting => exact hother hacting rfl
  | _ => cases hclosing

theorem Fires.resumesOpen (h : Fires settings s act t) (hsound : s.Sound)
    (hresumes : s.ResumesOpen) : t.ResumesOpen ↔ Apart s act := by
  constructor
  · intro hnext closing hclosing call hcall hplace
    obtain ⟨row, hrow, -⟩ := hresumes call hcall closing.1 hplace
    obtain ⟨row', hrow', hopen⟩ := hnext call (h.closer hclosing hcall hplace) closing.1 hplace
    exact (h.open_row hsound hrow hrow' hopen).2.2 (List.mem_map_of_mem hclosing)
  intro hapart call hcall place hplace
  rcases h.resumes hcall hplace with ⟨before, hbefore, hplace⟩ | ⟨hrows, row, hrow, hopen⟩
  · obtain ⟨row, hrow, hopen⟩ := hresumes before hbefore place hplace
    obtain ⟨row', hrow', -, hended⟩ := h.moves hsound hrow
    rcases hended with ⟨-, hended⟩ | ⟨now, hclosing, -⟩
    · exact ⟨row', hrow', hended.trans hopen⟩
    · exact absurd hplace (hapart _ hclosing before hbefore)
  · exact ⟨row, by rw [hrows, hrow], hopen⟩

theorem closes_now {a b} (ha : a ∈ s.closes act) (hb : b ∈ s.closes act) : a.2 = b.2 := by
  have hsame : ∀ {closes : List Found} {now : Timestamp},
      a ∈ closes.map (fun found => (found.place, now)) →
        b ∈ closes.map (fun found => (found.place, now)) → a.2 = b.2 := by
    intro closes now ha hb
    obtain ⟨_, -, rfl⟩ := List.mem_map.mp ha
    obtain ⟨_, -, rfl⟩ := List.mem_map.mp hb
    rfl
  cases act with
  | create c cursor =>
    cases hcall : s.calls[c]? with
    | none => simp [State.closes, hcall] at ha
    | some call =>
      cases call with
      | creating entry sessionIn closes now =>
        rw [closes_create hcall] at ha hb
        exact hsame ha hb
      | _ => simp [State.closes, hcall] at ha
  | close c now =>
    cases hcall : s.calls[c]? with
    | none => simp [State.closes, hcall] at ha
    | some call =>
      cases call with
      | ending found =>
        rw [closes_close hcall] at ha hb
        rw [mem_singleton.mp ha, mem_singleton.mp hb]
      | _ => simp [State.closes, hcall] at ha
  | _ => cases ha

theorem Fires.endsKept (h : Fires settings s act t) (hsound : s.Sound) :
    s.EndsKept t ↔ EndsOnce s act := by
  constructor
  · intro hkept closing hclosing row hrow
    cases hended : row.endedAt with
    | none => exact .inl rfl
    | some time =>
      obtain ⟨row', hrow', htime⟩ := hkept closing.1 row hrow time hended
      obtain ⟨row'', hrow'', -, hmoved⟩ := h.moves hsound hrow
      obtain rfl : row'' = row' := some.inj (hrow''.symm.trans hrow')
      rcases hmoved with ⟨hnot, -⟩ | ⟨now, hnow, hended'⟩
      · exact absurd (List.mem_map_of_mem hclosing) hnot
      · rw [htime] at hended'
        exact .inr (hended'.trans (congrArg some (closes_now hnow hclosing)))
  · intro honce place row hrow time hended
    obtain ⟨row', hrow', -, hmoved⟩ := h.moves hsound hrow
    refine ⟨row', hrow', ?_⟩
    rcases hmoved with ⟨-, hsame⟩ | ⟨now, hnow, hended'⟩
    · exact hsame.trans hended
    · rcases honce _ hnow row hrow with hopen | htime
      · rw [hopen] at hended
        cases hended
      · rw [hended', ← htime, hended]

/-! ## Resumes alone -/

/-- No two open sessions are of the same task, machine and agent. -/
def State.Unique (s : State) : Prop :=
  ∀ (i j : Nat) (a b : WorkSession), s.rows[i]? = some a → s.rows[j]? = some b →
    a.endedAt = none → b.endedAt = none → a.Alike b → i = j

/-- The state that resumes alone lead to. -/
structure Resumed (s : State) : Prop where
  calls : ∀ call ∈ s.calls, call.ofResume = true
  unique : s.Unique
  /-- What a resume found is all there is to find, until it has committed. -/
  replacing : ∀ (c : Nat) (sessionIn : WorkSessionCreate) (existing : Option Found)
    (now : Timestamp), s.calls[c]? = some (.replacing sessionIn existing now) →
      ∀ (place : Nat) (row : WorkSession), s.rows[place]? = some row → row.OpenFor sessionIn →
        place ∈ existing.toList.map Found.place
  creating : ∀ (c : Nat) (sessionIn : WorkSessionCreate) (closes : List Found)
    (now : Timestamp), s.calls[c]? = some (.creating .resume sessionIn closes now) →
      ∀ (place : Nat) (row : WorkSession), s.rows[place]? = some row → row.OpenFor sessionIn →
        place ∈ closes.map Found.place

theorem openFor_of_alike
    (h : row.OpenFor sessionIn) (halike : row.Alike old) (hopen : old.endedAt = none) :
    old.OpenFor sessionIn := by
  obtain ⟨⟨htask, hmachine⟩, -, hagent⟩ := h
  obtain ⟨htask', hmachine', hagent'⟩ := halike
  exact ⟨⟨htask' ▸ htask, hmachine' ▸ hmachine⟩, hopen, hagent' ▸ hagent⟩

theorem Fires.ofResume (h : Fires settings s act t) (honly : ResumesOnly s act)
    (hcalls : ∀ call ∈ s.calls, call.ofResume = true) : ∀ call ∈ t.calls, call.ofResume = true := by
  have hput : ∀ {c : Nat} {next : Call}, next.ofResume = true →
      ∀ call ∈ (s.put c next).calls, call.ofResume = true := by
    intro c next hnext call hcall
    rcases mem_or_eq_of_mem_set hcall with hcall | rfl
    · exact hcalls call hcall
    · exact hnext
  cases h with
  | opened _ _ _ hresume =>
    intro call hcall
    rcases mem_append.mp hcall with hcall | hcall
    · exact hcalls call hcall
    · exact mem_singleton.mp hcall ▸ hresume honly
  | found =>
    refine hput ?_
    rcases afterFind_cases settings _ _ _ _ with ⟨found, hfind⟩ | hfind <;> rw [hfind] <;> rfl
  | selected hcall | closed hcall => cases hcalls _ (mem_of_getElem? hcall)
  | _ => exact hput rfl

theorem afterFind_replacing {sessionIn' existing' now' later}
    (h : afterFind settings sessionIn existing now later = .replacing sessionIn' existing' now') :
    sessionIn = sessionIn' ∧ existing = existing' := by
  rcases afterFind_cases settings sessionIn existing now later with ⟨found, hfind⟩ | hfind
  · rw [hfind] at h
    cases h
  · rw [hfind] at h
    cases h
    exact ⟨rfl, rfl⟩

theorem Fires.replacing (h : Fires settings s act t)

    (hcall : t.calls[c]? = some (.replacing sessionIn existing now)) :
    s.calls[c]? = some (.replacing sessionIn existing now) ∨
      (t.rows = s.rows ∧ ∃ place, IsNewest s.rows sessionIn place ∧
        existing = place.bind fun place => s.rows[place]?.map (Found.mk place)) := by
  cases h with
  | opened _ hfresh =>
    rcases push_call hcall with rfl | hold
    · cases hfresh.1
    · exact .inl hold
  | found _ hnewest =>
    rcases put_call hcall with ⟨-, hnew⟩ | ⟨-, hold⟩
    · obtain ⟨rfl, hexisting⟩ := afterFind_replacing hnew.symm
      exact .inr ⟨rfl, _, hnewest, hexisting.symm⟩
    · exact .inl hold
  | _ =>
    rcases put_call hcall with ⟨-, hnew⟩ | ⟨-, hold⟩
    · cases hnew
    · exact .inl hold

theorem Fires.unique (h : Fires settings s act t) (hsound : s.Sound) (hresumed : Resumed s) :
    t.Unique := by
  intro i j a b ha hb hopena hopenb halike
  -- beside a new session no other one of its agent is open
  have hbeside : ∀ {c : Nat} {cursor : Option Int} {entry : Entry} {sessionIn : WorkSessionCreate}
      {closes : List Found} {now : Timestamp}, act = .create c cursor →
      s.calls[c]? = some (.creating entry sessionIn closes now) → ∀ {place : Nat}
        {old row : WorkSession}, s.rows[place]? = some old → t.rows[place]? = some row →
          row.endedAt = none → row.Alike (sessionIn.session now cursor) → False := by
    intro c cursor entry sessionIn closes now hact hcall place old row hold hrow hopen halike
    obtain ⟨halike', hopen', hnot⟩ := h.open_row hsound hold hrow hopen
    obtain ⟨htask, hmachine, hagent⟩ := halike
    cases entry with
    | start => cases hresumed.calls _ (mem_of_getElem? hcall)
    | resume =>
      have hmem := hresumed.creating c sessionIn closes now hcall place old hold
        (openFor_of_alike ⟨⟨htask, hmachine⟩, hopen, hagent⟩ halike' hopen')
      rw [hact, closes_create hcall, List.map_map] at hnot
      exact hnot hmem
  rcases h.new_row ha with ⟨olda, hi⟩ | ⟨c, cursor, entry, sessionIn, closes, now, hact, hcall, -,
    hi, rfl⟩
  · rcases h.new_row hb with ⟨oldb, hj⟩ | ⟨c, cursor, entry, sessionIn, closes, now, hact, hcall, -,
      -, rfl⟩
    · obtain ⟨halikea, hopena', -⟩ := h.open_row hsound hi ha hopena
      obtain ⟨halikeb, hopenb', -⟩ := h.open_row hsound hj hb hopenb
      exact hresumed.unique i j olda oldb hi hj hopena' hopenb'
        (halikea.symm.trans (halike.trans halikeb))
    · exact (hbeside hact hcall hi ha hopena halike).elim
  · rcases h.new_row hb with ⟨oldb, hj⟩ | ⟨-, -, -, -, -, -, -, -, -, hj, -⟩
    · exact (hbeside hact hcall hj hb hopenb halike.symm).elim
    · rw [hi, hj]

theorem Fires.resumed (h : Fires settings s act t) (honly : ResumesOnly s act) (hsound : s.Sound)
    (hex : s.Exclusive) (hresumed : Resumed s) : Resumed t where
  calls := h.ofResume honly hresumed.calls
  unique := h.unique hsound hresumed
  replacing c sessionIn existing now hcall place row hrow hopen := by
    rcases h.replacing hcall with hold | ⟨hrows, found, hnewest, rfl⟩
    · obtain ⟨old, hplace, halike, hopen'⟩ :=
        h.locked_row hsound hex hold hcall rfl rfl hrow hopen.1.1 hopen.2.1
      exact hresumed.replacing c sessionIn existing now hold place old hplace
        (openFor_of_alike hopen halike hopen')
    rw [hrows] at hrow
    cases found with
    | none => exact absurd hopen (hnewest row (mem_of_getElem? hrow))
    | some newest =>
      obtain ⟨other, hother, hopen'⟩ := hnewest.openFor
      have hplace : place = newest := by
        refine hresumed.unique place newest row other hrow hother hopen.2.1 hopen'.2.1 ?_
        exact ⟨hopen.1.1.trans hopen'.1.1.symm, hopen.1.2.trans hopen'.1.2.symm,
          hopen.2.2.trans hopen'.2.2.symm⟩
      simp [hother, hplace]
  creating c sessionIn closes now hcall place row hrow hopen := by
    rcases h.creating hcall with hold | ⟨hrows, -, hresume⟩
    · obtain ⟨old, hplace, halike, hopen'⟩ :=
        h.locked_row hsound hex hold hcall rfl rfl hrow hopen.1.1 hopen.2.1
      exact hresumed.creating c sessionIn closes now hold place old hplace
        (openFor_of_alike hopen halike hopen')
    · obtain ⟨existing, hreplacing, hall⟩ := hresume rfl
      rw [hrows] at hrow
      obtain ⟨found, hfound, hplace⟩ := List.mem_map.mp
        (hresumed.replacing c sessionIn existing now hreplacing place row hrow hopen)
      exact List.mem_map.mpr ⟨found, hall found hfound, hplace⟩

/-! ## Runs -/

/-- What holds in every run. -/
structure Inv (s : State) : Prop where
  sound : s.Sound
  exclusive : s.Exclusive
  covered : s.Covered

theorem inv_start : Inv State.start where
  sound := forall_mem_nil _
  exclusive := fun _ _ _ _ h => by cases h
  covered := fun _ _ _ _ h => by cases h

theorem Inv.step (h : Inv s) (hstep : WorkSessions.step settings s act = some t) : Inv t :=
  have hfires := step_fires hstep
  { sound := hfires.sound h.sound
    exclusive := hfires.exclusive h.exclusive
    covered := hfires.covered h.sound h.exclusive h.covered }

theorem State.EndsKept.trans {u} (h : s.EndsKept t) (h' : t.EndsKept u) : s.EndsKept u := by
  intro place row hrow time hended
  obtain ⟨row', hrow', hended'⟩ := h place row hrow time hended
  exact h' place row' hrow' time hended'

theorem inv_run {G} (hrun : Run (step settings) G s acts t) (h : Inv s) : Inv t :=
  hrun.invariant (fun h _ hstep => h.step hstep) h

theorem oneIdentity_run (hrun : Run (step settings) Seen State.start acts s) :
    Inv s ∧ s.OneIdentity := by
  refine hrun.invariant (I := fun s => Inv s ∧ s.OneIdentity) ?_ ⟨inv_start, fun _ h => by cases h⟩
  intro s act t h hseen hstep
  exact ⟨h.1.step hstep, ((step_fires hstep).oneIdentity h.1.sound h.1.covered h.2).mpr hseen⟩

theorem resumesOpen_run (hrun : Run (step settings) Apart State.start acts s) :
    Inv s ∧ s.ResumesOpen := by
  refine hrun.invariant (I := fun s => Inv s ∧ s.ResumesOpen) ?_ ⟨inv_start, fun _ h => by cases h⟩
  intro s act t h hapart hstep
  exact ⟨h.1.step hstep, ((step_fires hstep).resumesOpen h.1.sound h.2).mpr hapart⟩

theorem endsKept_run (hrun : Run (step settings) EndsOnce s acts t) (h : Inv s) : s.EndsKept t := by
  have hkept : Inv t ∧ s.EndsKept t := by
    refine hrun.invariant (I := fun t => Inv t ∧ s.EndsKept t) ?_
      ⟨h, fun place row hrow time hended => ⟨row, hrow, hended⟩⟩
    intro u act v hu honce hstep
    exact ⟨hu.1.step hstep, hu.2.trans (((step_fires hstep).endsKept hu.1.sound).mpr honce)⟩
  exact hkept.2

theorem ended_run (hrun : Run (step settings) Free s acts t) (h : Inv s)
    (hrow : s.rows[place]? = some row) (hended : row.endedAt.isSome) :
    ∃ row' : WorkSession, t.rows[place]? = some row' ∧ row'.endedAt.isSome := by
  have hkept : Inv t ∧ ∃ row' : WorkSession, t.rows[place]? = some row' ∧ row'.endedAt.isSome := by
    refine hrun.invariant
      (I := fun t => Inv t ∧ ∃ row' : WorkSession, t.rows[place]? = some row' ∧ row'.endedAt.isSome)
      ?_ ⟨h, row, hrow, hended⟩
    intro u act v hu _ hstep
    obtain ⟨hinv, row', hrow', hended'⟩ := hu
    obtain ⟨row'', hrow'', -, hmoved⟩ := (step_fires hstep).moves hinv.sound hrow'
    refine ⟨hinv.step hstep, row'', hrow'', ?_⟩
    rcases hmoved with ⟨-, hsame⟩ | ⟨now, -, hnow⟩
    · exact hsame ▸ hended'
    · exact hnow ▸ rfl
  exact hkept.2

theorem resumed_run
    (hrun : Run (step settings) ResumesOnly State.start acts s) : Inv s ∧ Resumed s := by
  have hstart : Resumed State.start :=
    { calls := forall_mem_nil _
      unique := fun _ _ _ _ h => by cases h
      replacing := fun _ _ _ _ h => by cases h
      creating := fun _ _ _ _ h => by cases h }
  refine hrun.invariant (I := fun s => Inv s ∧ Resumed s) ?_ ⟨inv_start, hstart⟩
  intro s act t h honly hstep
  exact ⟨h.1.step hstep, (step_fires hstep).resumed honly h.1.sound h.1.exclusive h.2⟩

/-- **One live identity.** Where creations have seen the open sessions of other identities, one
agent has the open sessions of a task and machine; where no session is closed while a call resumes
it, a resumed session is open; where sessions are closed while open, what has ended stays ended. In
each of the three, a step keeps the promise exactly if it meets the condition. Resumes alone leave
one open session of a task, machine and agent. -/
theorem one_live_identity (settings : Settings) :
    (∀ acts s, Run (step settings) Seen State.start acts s → s.OneIdentity ∧
      ∀ act t, step settings s act = some t → (t.OneIdentity ↔ Seen s act)) ∧
    (∀ acts s, Run (step settings) Apart State.start acts s →
      (∀ c place t, s.calls[c]? = some (.committed place true) →
        step settings s (.finish c) = some t →
          ∃ row, t.rows[place]? = some row ∧ row.endedAt = none) ∧
      ∀ act t, step settings s act = some t → (t.ResumesOpen ↔ Apart s act)) ∧
    (∀ acts s, Run (step settings) Free State.start acts s →
      (∀ acts' t, Run (step settings) EndsOnce s acts' t → s.EndsKept t) ∧
      (∀ act t, step settings s act = some t → (s.EndsKept t ↔ EndsOnce s act)) ∧
      ∀ acts' t, Run (step settings) Free s acts' t →
        ∀ (place : Nat) (row : WorkSession), s.rows[place]? = some row → row.endedAt.isSome →
          ∃ row' : WorkSession, t.rows[place]? = some row' ∧ row'.endedAt.isSome) ∧
    ∀ acts s, Run (step settings) ResumesOnly State.start acts s → s.Unique := by
  refine ⟨?_, ?_, ?_, ?_⟩
  · intro acts s hrun
    obtain ⟨hinv, hid⟩ := oneIdentity_run hrun
    refine ⟨hid, ?_⟩
    intro act t hstep
    exact (step_fires hstep).oneIdentity hinv.sound hinv.covered hid
  · intro acts s hrun
    obtain ⟨hinv, hresumes⟩ := resumesOpen_run hrun
    constructor
    · intro c place t hcall hstep
      have ht : s.put c (.returned place true) = t := by
        simpa [WorkSessions.step, hcall] using hstep
      exact ht ▸ hresumes _ (mem_of_getElem? hcall) place rfl
    · intro act t hstep
      exact (step_fires hstep).resumesOpen hinv.sound hresumes
  · intro acts s hrun
    have hinv := inv_run hrun inv_start
    refine ⟨?_, ?_, ?_⟩
    · intro acts' t hrun'
      exact endsKept_run hrun' hinv
    · intro act t hstep
      exact (step_fires hstep).endsKept hinv.sound
    · intro acts' t hrun' place row hrow hended
      exact ended_run hrun' hinv hrow hended
  · intro acts s hrun
    exact (resumed_run hrun).2.unique

/-! ## Two agents on one machine -/

def sampleSettings : Settings :=
  { sessionIdleAfterSeconds := 1800, sessionExpireAfterSeconds := 28800 }

def samplePrincipal : Principal :=
  { machine := { id := ⟨"m"⟩, ownerUserId := ⟨"u"⟩ }
    role := .developer
    projectScope := .allProjects }

def sampleReads : Reads :=
  { project := some ⟨"p"⟩
    agent := some { ownerUserId := some ⟨"u"⟩, machineId := none } }

def work (agent : String) : WorkSessionCreate :=
  { taskId := ⟨"t"⟩, machineId := ⟨"m"⟩, agentId := some ⟨agent⟩ }

/-- An agent starts a session, as call `c`. -/
def startRun (c : Nat) (agent : String) : List Act :=
  [.start samplePrincipal (work agent) sampleReads, .select c 0, .create c none, .finish c]

/-- An agent resumes session `place`, as call `c`. -/
def resumeRun (c : Nat) (agent : String) (place : Nat) : List Act :=
  [.resume samplePrincipal (work agent) sampleReads, .lock c, .find c (some place) 1 1, .touch c]

/-- An agent finds no session of its own, and creates one. -/
def replaceRun (c : Nat) (agent : String) : List Act :=
  [.resume samplePrincipal (work agent) sampleReads, .lock c, .find c none 1 1, .supersede c,
    .create c none, .finish c]

/-- The call has resumed session 0. -/
def Call.isResumed : Call → Bool
  | .committed 0 true => true
  | _ => false

theorem isResumed_call (h : s.calls[c]?.any Call.isResumed = true) :
    s.calls[c]? = some (.committed 0 true) := by
  obtain ⟨call, hcall, hresumed⟩ := (Option.any_eq_true _ _).mp h
  rw [hcall]
  unfold Call.isResumed at hresumed
  split at hresumed
  · rfl
  · cases hresumed

/-- The second agent replaces the session of the first, and resumes its own. -/
theorem one_live_identity_replaced :
    (∃ s, Run (step sampleSettings) Seen State.start (startRun 0 "a" ++ replaceRun 1 "b") s ∧
      s.rows.map (·.endedAt.isSome) = [true, false] ∧ s.OneIdentity) ∧
    ∃ s t, Run (step sampleSettings) Apart State.start (startRun 0 "a" ++ resumeRun 1 "a" 0) s ∧
      step sampleSettings s (.finish 1) = some t ∧
        ∃ row, t.rows[0]? = some row ∧ row.endedAt = none := by
  constructor
  · have h : (execWithin (step sampleSettings) Seen State.start
        (startRun 0 "a" ++ replaceRun 1 "b")).any
        (fun s => decide (s.rows.map (·.endedAt.isSome) = [true, false])) = true := by
      decide +kernel
    obtain ⟨s, hs, hok⟩ := (Option.any_eq_true _ _).mp h
    exact ⟨s, .of_execWithin hs, of_decide_eq_true hok,
      ((one_live_identity sampleSettings).1 _ s (.of_execWithin hs)).1⟩
  · have h : (execWithin (step sampleSettings) Apart State.start
        (startRun 0 "a" ++ resumeRun 1 "a" 0)).any (fun s =>
          s.calls[1]?.any Call.isResumed && (step sampleSettings s (.finish 1)).isSome) = true := by
      decide +kernel
    obtain ⟨s, hs, hok⟩ := Run.of_any h
    obtain ⟨hresumed, hsome⟩ := Bool.and_eq_true_iff.mp hok
    obtain ⟨t, ht⟩ := isSome_iff_exists.mp hsome
    exact ⟨s, t, hs, ht, ((one_live_identity sampleSettings).2.1 _ s
      hs).1 1 0 t (isResumed_call hresumed) ht⟩

/-- Two starts do not see each other's session. An end that has read the
session closes it while it is resumed. Two ends end it twice. -/
theorem identity_overlap :
    ¬ (∀ settings acts s, Run (step settings) Free State.start acts s → s.OneIdentity) ∧
    ¬ (∀ settings acts s c place t, Run (step settings) Free State.start acts s →
        s.calls[c]? = some (.committed place true) → step settings s (.finish c) = some t →
          ∃ row, t.rows[place]? = some row ∧ row.endedAt = none) ∧
    ¬ ∀ settings acts s acts' t, Run (step settings) Free State.start acts s →
        Run (step settings) Free s acts' t → s.EndsKept t := by
  refine ⟨?_, ?_, ?_⟩
  · intro hclaim
    have h : (execWithin (step sampleSettings) Free State.start
        [.start samplePrincipal (work "a") sampleReads,
          .start samplePrincipal (work "b") sampleReads, .select 0 0, .select 1 0,
          .create 0 none, .create 1 none]).any (fun s =>
            decide (s.rows = [(work "a").session 0 none, (work "b").session 0 none])) = true := by
      decide +kernel
    obtain ⟨s, hs, hok⟩ := (Option.any_eq_true _ _).mp h
    have hid := hclaim sampleSettings _ s (.of_execWithin hs)
    rw [State.OneIdentity, of_decide_eq_true hok] at hid
    exact absurd (hid _ (.head _) _ (.tail _ (.head _)) rfl rfl rfl rfl) (by decide)
  · intro hclaim
    have h : (execWithin (step sampleSettings) Free State.start
        (startRun 0 "a" ++ .beginEnd samplePrincipal 0 sampleReads :: resumeRun 2 "a" 0 ++
          [.close 1 2])).any (fun s => s.calls[2]?.any Call.isResumed &&
            (step sampleSettings s (.finish 2)).any fun t =>
              t.rows[0]?.any fun row => row.endedAt.isSome) = true := by
      decide +kernel
    obtain ⟨s, hs, hok⟩ := (Option.any_eq_true _ _).mp h
    obtain ⟨hresumed, hclosed⟩ := Bool.and_eq_true_iff.mp hok
    obtain ⟨t, ht, hrow⟩ := (Option.any_eq_true _ _).mp hclosed
    obtain ⟨row, hrow, hended⟩ := (Option.any_eq_true _ _).mp hrow
    obtain ⟨row', hrow', hopen⟩ := hclaim sampleSettings _ s 2 0 t (.of_execWithin hs)
      (isResumed_call hresumed) ht
    obtain rfl := some.inj (hrow.symm.trans hrow')
    rw [hopen] at hended
    cases hended
  · intro hclaim
    have h : (execWithin (step sampleSettings) Free State.start
        (startRun 0 "a" ++ [.beginEnd samplePrincipal 0 sampleReads,
          .beginEnd samplePrincipal 0 sampleReads, .close 1 2])).any (fun s =>
            (s.rows[0]?.any fun row => row.endedAt = some 2) &&
              (step sampleSettings s (.close 2 3)).any fun t =>
                t.rows[0]?.any fun row => row.endedAt = some 3) = true := by
      decide +kernel
    obtain ⟨s, hs, hok⟩ := (Option.any_eq_true _ _).mp h
    obtain ⟨hfirst, hsecond⟩ := Bool.and_eq_true_iff.mp hok
    obtain ⟨row, hrow, hended⟩ := (Option.any_eq_true _ _).mp hfirst
    obtain ⟨t, ht, hagain⟩ := (Option.any_eq_true _ _).mp hsecond
    obtain ⟨row', hrow', hended'⟩ := (Option.any_eq_true _ _).mp hagain
    obtain ⟨row'', hrow'', hkept⟩ := hclaim sampleSettings _ s _ t (.of_execWithin hs)
      (.cons trivial ht (.nil t)) 0 row hrow 2 (of_decide_eq_true hended)
    obtain rfl := some.inj (hrow'.symm.trans hrow'')
    rw [of_decide_eq_true hended'] at hkept
    cases hkept

end StudioOS.WorkSessions
