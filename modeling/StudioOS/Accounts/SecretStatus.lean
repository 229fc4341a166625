import StudioOS.Accounts.SecretReads

/-!
# SecretStatus — the status of the user when a consumer commits

A user is verified once and disabled once, for good as far as these calls go.
A consumer has read a status that permits it after it had read the clock, so
nothing that bars it had taken effect by then.
-/

namespace StudioOS.Accounts.Secrets

open List

variable {settings : Settings} {s t : State} {act : Act}

variable {call next : Call} {user : UserRow}

/-- What a call has read permits it, and it writes what its operation makes of that. -/
structure Call.Faithful (call : Call) : Prop where
  permits : ∀ read, call.phase.readRow = some read →
    call.op.permits read = true ∧ (call.op.secret.isSome ∨ call.op = .disableAccount)
  writes : ∀ read new now, (∃ scopes, call.phase = .updating (.write read new now) scopes) ∨
    (∃ scope scopes at' todo, call.phase = .expiring (.write read new now) scope scopes at' todo) →
      new = call.op.write read now

theorem faithful_of_readRow (h : call.phase.readRow = none) : call.Faithful where
  permits := by
    intro read hread
    rw [h] at hread
    cases hread
  writes := by
    rintro read new now (⟨scopes, hphase⟩ | ⟨scope, scopes, at', todo, hphase⟩)
    · rw [hphase] at h
      cases h
    · rw [hphase] at h
      cases h

theorem Moved.faithful {c} (h : Moved s c call next)
    (hfaithful : call.Faithful) : next.Faithful := by
  cases h with
  | checked _ _ hpermits hop =>
    refine ⟨?_, ?_⟩
    · rintro read ⟨⟩
      exact ⟨hpermits, hop⟩
    · rintro read new now (⟨_, hphase⟩ | ⟨_, _, _, _, hphase⟩) <;> cases hphase
  | ready hphase =>
    refine ⟨?_, ?_⟩
    · rintro read ⟨⟩
      exact hfaithful.permits _ (by rw [hphase]; rfl)
    · rintro read new now (⟨_, hphase⟩ | ⟨_, _, _, _, hphase⟩) <;> cases hphase
  | writing hphase =>
    refine ⟨?_, ?_⟩
    · rintro read ⟨⟩
      exact hfaithful.permits _ (by rw [hphase]; rfl)
    · rintro read new now (⟨_, hphase⟩ | ⟨_, _, _, _, hphase⟩)
      · cases hphase
        rfl
      · cases hphase
  | @expiring work scope scopes at' hphase =>
    cases work with
    | issue => exact faithful_of_readRow rfl
    | write read new now =>
      refine ⟨?_, ?_⟩
      · rintro read ⟨⟩
        exact hfaithful.permits _ (by rw [readRow_next hphase]; rfl)
      rintro read new now (⟨_, hnext⟩ | ⟨_, _, _, _, hnext⟩)
      · cases hnext
      · cases hnext
        rcases next_cases hphase with hphase | ⟨_, _, hphase⟩
        · exact hfaithful.writes _ _ _ (.inl ⟨_, hphase⟩)
        · exact hfaithful.writes _ _ _ (.inr ⟨_, _, _, _, hphase⟩)
  | @skipped work scope scopes at' todo place hphase =>
    cases work with
    | issue => exact faithful_of_readRow rfl
    | write read new now =>
      refine ⟨?_, ?_⟩
      · rintro read ⟨⟩
        exact hfaithful.permits _ (by rw [hphase]; rfl)
      · rintro read new now (⟨_, hnext⟩ | ⟨_, _, _, _, hnext⟩)
        · cases hnext
        · cases hnext
          exact hfaithful.writes _ _ _ (.inr ⟨_, _, _, _, hphase⟩)
  | _ => exact faithful_of_readRow rfl

theorem Fires.faithful (h : Fires settings s act t) (hfaithful : ∀ call ∈ s.calls, call.Faithful) :
    ∀ call ∈ t.calls, call.Faithful := by
  intro call hcall
  obtain ⟨d, hcall⟩ := List.getElem?_of_mem hcall
  cases h.becomes hcall with
  | same hold => exact hfaithful call (mem_of_getElem? hold)
  | moved hold hmoved => exact hmoved.faithful (hfaithful _ (mem_of_getElem? hold))
  | @expired before place token work scope scopes now todo hold hphase =>
    -- it goes on as if the row had been skipped
    have hmoved :
      Moved s d before (before.go (.expiring work scope scopes now (todo.erase place))) :=
      .skipped place hphase
    have hnext := hmoved.faithful (hfaithful before (mem_of_getElem? hold))
    exact ⟨hnext.permits, hnext.writes⟩
  | _ => exact faithful_of_readRow rfl

/-- The row of the user at a later time. -/
def Lasts (old new : UserRow) : Prop :=
  (old.disabledAt.isSome → new.disabledAt.isSome) ∧
    (old.emailVerifiedAt.isSome → new.emailVerifiedAt.isSome)

theorem flushed_isSome {α : Type} [DecidableEq α] {read new current : Option α}
    (hnew : new = read ∨ new.isSome) (hcurrent : current.isSome) :
    (flushed read new current).isSome := by
  unfold flushed
  split
  · exact hcurrent
  · rename_i hne
    rcases hnew with heq | hsome
    · exact absurd heq hne
    · exact hsome

theorem write_disabledAt (op : Op) (read) (now) :
    (op.write read now).disabledAt = read.disabledAt ∨ (op.write read now).disabledAt.isSome := by
  cases op with
  | resetPassword secret passwordHash =>
    left
    simp only [Op.write, Accounts.Op.write]
    split <;> rfl
  | disableAccount => exact .inr rfl
  | _ => exact .inl rfl

theorem write_emailVerifiedAt (op : Op) (read) (now) :
    (op.write read now).emailVerifiedAt = read.emailVerifiedAt ∨
      (op.write read now).emailVerifiedAt.isSome := by
  cases op with
  | verifyEmail => exact .inr rfl
  | resetPassword secret passwordHash =>
    simp only [Op.write, Accounts.Op.write]
    split
    · exact .inr rfl
    · exact .inl rfl
  | _ => exact .inl rfl

theorem flush_lasts (op : Op) (read current) (now) :
    Lasts current (UserRow.flush read (op.write read now) current) :=
  ⟨flushed_isSome (write_disabledAt op read now),
    flushed_isSome (write_emailVerifiedAt op read now)⟩

theorem Fires.lasts (h : Fires settings s act t) (hfaithful : ∀ call ∈ s.calls, call.Faithful)
    (haddress : Address s) (huser : s.user = some user) :
    ∃ new, t.user = some new ∧ Lasts user new := by
  cases h with
  | created hcall hphase =>
    have := haddress.creating _ (mem_of_getElem? hcall) (by rw [Call.locksAddress, hphase])
    rw [huser] at this
    cases this
  | @committed c call work scope now hcall hphase =>
    cases work with
    | issue => exact ⟨user, huser, id, id⟩
    | write read new at' =>
      have hnew := (hfaithful call (mem_of_getElem? hcall)).writes _ _ _
        (.inr ⟨_, _, _, _, hphase⟩)
      refine ⟨UserRow.flush read new user, ?_, ?_⟩
      · show s.user.map (UserRow.flush read new) = _
        rw [huser]
        rfl
      · rw [hnew]
        exact flush_lasts call.op read user at'
  | _ => exact ⟨user, huser, id, id⟩

theorem permits_emailVerification : Purpose.emailVerification.permits user = true ↔
      user.disabledAt = none ∧ user.emailVerifiedAt = none := by
  cases hdisabled : user.disabledAt <;> cases hverified : user.emailVerifiedAt <;>
    simp [Purpose.permits, UserRow.status, hdisabled, hverified]

theorem permits_passwordReset :
    Purpose.passwordReset.permits user = true ↔ user.disabledAt = none := by
  cases hdisabled : user.disabledAt <;> cases hverified : user.emailVerifiedAt <;>
    simp [Purpose.permits, UserRow.status, hdisabled, hverified]

theorem eq_none_of_isSome {α : Type} {old new : Option α} (h : old.isSome → new.isSome)
    (hnew : new = none) : old = none := by
  by_contra hold
  have := h (Option.isSome_iff_ne_none.mpr hold)
  rw [hnew] at this
  cases this

theorem Lasts.permits {old new : UserRow} (h : Lasts old new) {purpose : Purpose}
    (hpermits : purpose.permits new = true) : purpose.permits old = true := by
  cases purpose with
  | emailVerification =>
    obtain ⟨hdisabled, hverified⟩ := permits_emailVerification.mp hpermits
    exact permits_emailVerification.mpr
      ⟨eq_none_of_isSome h.1 hdisabled, eq_none_of_isSome h.2 hverified⟩
  | passwordReset =>
    exact permits_passwordReset.mpr (eq_none_of_isSome h.1 (permits_passwordReset.mp hpermits))

/-- The row of the user shows that the entry has taken effect. -/
def Entry.shows (user : UserRow) : Entry → Bool
  | .accepted _ .emailVerification => user.emailVerifiedAt.isSome
  | .accepted _ .passwordReset => true
  | .disabled => user.disabledAt.isSome

/-- No secret of the purpose is accepted by a call that reads the user after the entry. -/
def Entry.bars (purpose : Purpose) : Entry → Bool
  | .accepted _ .emailVerification => purpose = .emailVerification
  | .accepted _ .passwordReset => false
  | .disabled => true

def State.Shown (s : State) : Prop :=
  ∀ entry ∈ s.log, ∀ user, s.user = some user → entry.shows user = true

theorem Lasts.shows {old new : UserRow} (h : Lasts old new) {entry : Entry}
    (hshows : entry.shows old = true) : entry.shows new = true := by
  cases entry with
  | disabled => exact h.1 hshows
  | accepted secret purpose =>
    cases purpose with
    | emailVerification => exact h.2 hshows
    | passwordReset => rfl

theorem bars_of_shows {entry : Entry} {purpose : Purpose}
    (hshows : entry.shows user = true) (hpermits : purpose.permits user = true) :
    entry.bars purpose = false := by
  cases entry with
  | disabled =>
    have hnone : user.disabledAt = none := by
      cases purpose with
      | emailVerification => exact (permits_emailVerification.mp hpermits).1
      | passwordReset => exact permits_passwordReset.mp hpermits
    simp [Entry.shows, hnone] at hshows
  | accepted secret other =>
    cases other with
    | passwordReset => rfl
    | emailVerification =>
      cases purpose with
      | passwordReset => rfl
      | emailVerification =>
        have hnone := (permits_emailVerification.mp hpermits).2
        simp [Entry.shows, hnone] at hshows

theorem flush_shows {op : Op} {read current : UserRow} {now : Int}
    (hpermits : op.permits read = true) (hop : op.secret.isSome ∨ op = .disableAccount) :
    op.entry.shows (UserRow.flush read (op.write read now) current) = true := by
  cases op with
  | verifyEmail =>
    have hnone : read.emailVerifiedAt = none := (permits_emailVerification.mp hpermits).2
    show (flushed read.emailVerifiedAt (some now) current.emailVerifiedAt).isSome = true
    rw [hnone]
    exact congrArg Option.isSome (flushed_of_ne (by simp) _)
  | resetPassword => rfl
  | disableAccount =>
    have hnone : read.disabledAt = none := by
      simpa [Op.permits, Op.purpose] using hpermits
    show (flushed read.disabledAt (some now) current.disabledAt).isSome = true
    rw [hnone]
    exact congrArg Option.isSome (flushed_of_ne (by simp) _)
  | _ => rcases hop with hop | hop <;> cases hop

theorem Fires.shown (h : Fires settings s act t) (hfaithful : ∀ call ∈ s.calls, call.Faithful)
    (haddress : Address s) (hshown : s.Shown) : t.Shown := by
  intro entry hentry user huser
  have hkept : entry ∈ s.log → entry.shows user = true := by
    intro hold
    cases hbefore : s.user with
    | none =>
      rw [(haddress.first hbefore).2] at hold
      cases hold
    | some before =>
      obtain ⟨new, hnew, hlasts⟩ := h.lasts hfaithful haddress hbefore
      obtain rfl := Option.some.inj (huser.symm.trans hnew)
      exact hlasts.shows (hshown entry hold before hbefore)
  rcases h.log with hlog | ⟨c, call, read, new, now, scope, at', rfl, hcall, hphase, rfl⟩
  · exact hkept (hlog ▸ hentry)
  rcases mem_append.mp hentry with hold | hnew
  · exact hkept hold
  rw [mem_singleton.mp hnew]
  have hcall := hfaithful call (mem_of_getElem? hcall)
  obtain ⟨hpermits, hop⟩ := hcall.permits read (by rw [hphase]; rfl)
  have hwrite := hcall.writes _ _ _ (.inr ⟨_, _, _, _, hphase⟩)
  obtain ⟨current, -, rfl⟩ := Option.map_eq_some_iff.mp huser
  rw [hwrite]
  exact flush_shows hpermits hop

/-! ## What a consumer has been told -/

/-- What a call knows of the log, by the place where it read the clock. -/
structure Told (s : State) (call : Call) : Prop where
  began : call.began ≤ s.log.length
  timed : call.timed ≤ s.log.length
  /-- Nothing that bars its purpose had taken effect by then. -/
  free : call.phase.readRow.isSome → ∀ purpose, call.op.purpose = some purpose →
    ∀ entry ∈ s.log.take call.timed, entry.bars purpose = false

theorem Fires.log_append (h : Fires settings s act t) : ∃ new, t.log = s.log ++ new := by
  rcases h.log with hlog | ⟨c, call, read, new, now, scope, at', -, -, -, rfl⟩
  · exact ⟨[], by rw [hlog, append_nil]⟩
  · exact ⟨[call.op.entry], rfl⟩

theorem Fires.length_log (h : Fires settings s act t) : s.log.length ≤ t.log.length := by
  obtain ⟨new, hnew⟩ := h.log_append
  rw [hnew, length_append]
  omega

theorem Fires.take_log (h : Fires settings s act t) {n} (hn : n ≤ s.log.length) :
    t.log.take n = s.log.take n := by
  obtain ⟨new, hnew⟩ := h.log_append
  rw [hnew, take_append_of_le_length hn]

theorem Told.kept (h : Fires settings s act t) (htold : Told s call)
    (hbegan : next.began = call.began) (htimed : next.timed = call.timed)
    (hfree : next.phase.readRow.isSome → ∀ purpose, next.op.purpose = some purpose →
      ∀ entry ∈ s.log.take call.timed, entry.bars purpose = false) : Told t next where
  began := hbegan ▸ Nat.le_trans htold.began h.length_log
  timed := htimed ▸ Nat.le_trans htold.timed h.length_log
  free := by
    rw [htimed, h.take_log htold.timed]
    exact hfree

theorem Moved.told {c} (h : Moved s c call next) (hshown : s.Shown)
    (hfires : Fires settings s act t) (htold : Told s call) : Told t next := by
  cases h with
  | timed =>
    exact
      { began := Nat.le_trans htold.began hfires.length_log
        timed := hfires.length_log
        free := nofun }
  | @checked user _ huser hpermits =>
    refine htold.kept hfires rfl rfl ?_
    intro _ purpose hpurpose entry hentry
    have hpermits' : purpose.permits user = true := by
      have hpurpose : call.op.purpose = some purpose := hpurpose
      simpa [Op.permits, hpurpose] using hpermits
    exact bars_of_shows (hshown entry (mem_of_mem_take hentry) user huser) hpermits'
  | ready hphase => exact htold.kept hfires rfl rfl fun _ => htold.free (by rw [hphase]; rfl)
  | writing hphase => exact htold.kept hfires rfl rfl fun _ => htold.free (by rw [hphase]; rfl)
  | @expiring work _ _ _ hphase =>
    cases work with
    | issue => exact htold.kept hfires rfl rfl nofun
    | write => exact htold.kept hfires rfl rfl fun _ =>
      htold.free (by rw [readRow_next hphase]; rfl)
  | @skipped work _ _ _ _ _ hphase =>
    cases work with
    | issue => exact htold.kept hfires rfl rfl nofun
    | write => exact htold.kept hfires rfl rfl fun _ => htold.free (by rw [hphase]; rfl)
  | _ => exact htold.kept hfires rfl rfl nofun

theorem Fires.told (h : Fires settings s act t) (hshown : s.Shown)
    (htold : ∀ call ∈ s.calls, Told s call) : ∀ call ∈ t.calls, Told t call := by
  intro call hcall
  obtain ⟨d, hcall⟩ := List.getElem?_of_mem hcall
  cases h.becomes hcall with
  | same hold =>
    have := htold call (mem_of_getElem? hold)
    exact this.kept h rfl rfl this.free
  | begun =>
    exact
      { began := h.length_log
        timed := h.length_log
        free := nofun }
  | moved hold hmoved => exact hmoved.told hshown h (htold _ (mem_of_getElem? hold))
  | finished hold | consumed hold => exact (htold _ (mem_of_getElem? hold)).kept h rfl rfl nofun
  | @expired before place token work scope scopes now todo hold hphase =>
    have hbefore := htold before (mem_of_getElem? hold)
    refine hbefore.kept h rfl rfl ?_
    cases work with
    | issue => exact nofun
    | write => exact fun _ => hbefore.free (by rw [hphase]; rfl)

/-- What holds in every state of every run. -/
structure Inv (s : State) : Prop where
  sound : s.Sound
  exclusive : s.Exclusive
  timely : s.Timely
  address : Address s
  consuming : s.Consuming
  accepted : s.Accepted
  once : s.AcceptedOnce
  faithful : ∀ call ∈ s.calls, call.Faithful
  shown : s.Shown
  told : ∀ call ∈ s.calls, Told s call

theorem inv_start (clock) : Inv (State.start clock) where
  sound := forall_mem_nil _
  exclusive := fun _ _ _ _ h => by cases h
  timely := timely_start clock
  address := address_start clock
  consuming := forall_mem_nil _
  accepted := fun _ _ h => by cases h
  once := nodup_nil
  faithful := forall_mem_nil _
  shown := forall_mem_nil _
  told := forall_mem_nil _

theorem Fires.inv (h : Fires settings s act t) (hinv : Inv s) : Inv t where
  sound := h.sound hinv.sound hinv.exclusive hinv.timely
  exclusive := h.exclusive hinv.exclusive
  timely := h.timely hinv.timely
  address := h.address hinv.address
  consuming := h.consuming hinv.exclusive hinv.consuming
  accepted := h.accepted hinv.sound hinv.consuming hinv.accepted
  once := h.acceptedOnce hinv.consuming hinv.accepted hinv.once
  faithful := h.faithful hinv.faithful
  shown := h.shown hinv.faithful hinv.address hinv.shown
  told := h.told hinv.shown hinv.told

end StudioOS.Accounts.Secrets
