import StudioOS.Accounts.SecretStatus

/-!
# SecretsDie — which secrets are accepted later

A secret is acceptable until a commit expires it, and stays unacceptable. Each law about what a
commit rules out needs its own condition on the calls that commit, since issuing takes no lock and
expiring sees only the rows that were committed.
-/

namespace StudioOS.Accounts.Secrets

open List Option Runs

variable {settings : Settings} {s t : State} {act : Act}

variable {place c n : Nat} {old token : Token} {call : Call}

theorem Fires.old_row (h : Fires settings s act t) (hsound : s.Sound)
    (hold : s.tokens[place]? = some old)
    (htoken : t.tokens[place]? = some token) : token.Later old := by
  obtain ⟨new, hnew, hlater⟩ := h.later hsound hold
  obtain rfl := some.inj (htoken.symm.trans hnew)
  exact hlater

theorem Fires.acceptable (h : Fires settings s act t) (hinv : Inv s)
    (hold : s.tokens[place]? = some old)
    (htoken : t.tokens[place]? = some token) (hacceptable : t.acceptable token = true) :
    s.acceptable old = true := by
  have hlater := h.old_row hinv.sound hold htoken
  obtain ⟨houtstanding, hpermits⟩ := Bool.and_eq_true_iff.mp hacceptable
  refine Bool.and_eq_true_iff.mpr
    ⟨outstanding_of_le h.clock_le (hlater.outstanding houtstanding), ?_⟩
  cases huser : s.user with
  | none =>
    have hempty := (hinv.address.first huser).1
    rw [hempty] at hold
    cases hold
  | some user =>
    obtain ⟨new, hnew, hlasts⟩ := h.lasts hinv.faithful hinv.address huser
    rw [hnew] at hpermits
    have hpermits : token.purpose.permits new = true := hpermits
    rw [hlater.1] at hpermits
    exact hlasts.permits hpermits

variable {scope : Option Purpose} {now : Int}
  {purpose : Purpose} {m : Nat} {entry : Entry} {next : Call}

theorem Fires.written_dead {scopes todo} (h : Fires settings s act t) (hsound : s.Sound)
    (hact : act = .commit c)
    (hcall : s.calls[c]? = some call) {work}
    (hphase : call.phase = .expiring work scope scopes now todo) (hlocks : call.locks place = true)
    (hold : s.tokens[place]? = some old)
    (htoken : t.tokens[place]? = some token) : t.acceptable token = false := by
  have hwrites : s.writes act = call.writes := by
    subst hact
    simp [State.writes, hcall, hphase]
  obtain ⟨new, hnew, ⟨-, hnot⟩ | hwrite⟩ := h.row hold
  · obtain ⟨other, hwrite⟩ := Call.locks_iff.mp hlocks
    exact absurd rfl (hnot _ (hwrites ▸ hwrite))
  obtain rfl := some.inj (htoken.symm.trans hnew)
  have hdead := (hsound call (mem_of_getElem? hcall) _ (hwrites ▸ hwrite)).dead
  by_contra hacceptable
  have houtstanding := (Bool.and_eq_true_iff.mp (Bool.not_eq_false _ ▸ hacceptable)).1
  rw [outstanding_of_le h.clock_le houtstanding] at hdead
  cases hdead

theorem expiresAll_apply (h : s.expiresAll call purpose = true)
    (htoken : s.tokens[place]? = some token)
    (hacceptable : s.acceptable token = true) (hpurpose : token.purpose = purpose) :
    call.locks place = true := by
  have := List.all_eq_true.mp h (token, place) (List.mem_zipIdx_iff_getElem?.mpr htoken)
  simpa [hacceptable, hpurpose] using this

theorem Fires.acceptable_issued {scopes todo} (h : Fires settings s act t) (hact : act = .commit c)
    (hcall : s.calls[c]? = some call) {at'}
    (hphase : call.phase = .expiring (.issue purpose now) scope scopes at' todo) (token) :
    t.acceptable token = s.acceptable token := by
  subst hact
  cases h with
  | moved hact | finished hact => cases hact
  | created hother hcreating =>
    obtain rfl := some.inj (hcall.symm.trans hother)
    rw [hphase] at hcreating
    cases hcreating
  | committed hother hexpiring =>
    obtain rfl := some.inj (hcall.symm.trans hother)
    rw [hphase] at hexpiring
    cases hexpiring
    rfl

theorem Fires.oneAcceptable (h : Fires settings s act t) (hinv : Inv s)
    (hguard : AtCommit (Call.replacesAll settings) s act) (hone : s.OneAcceptable) :
    t.OneAcceptable := by
  -- a secret that the step issues against one that was there
  have hnew : ∀ (i j : Nat) (a b old : Token), t.tokens[i]? = some a → t.tokens[j]? = some b →
      t.acceptable a = true → t.acceptable b = true → a.purpose = b.purpose →
        s.tokens[i]? = some old → (∃ old, s.tokens[j]? = some old) := by
    intro i j a b old ha hb hacceptable hacceptable' hpurpose hold
    rcases h.new_row hb with hold' | ⟨-, c, call, purpose, now, hact, hcall, rfl, hphase⟩
    · exact hold'
    exfalso
    have hbefore := h.acceptable hinv hold ha hacceptable
    rcases hphase with ⟨hphase, -⟩ | ⟨scope, at', hphase⟩
    · have hnone := hinv.address.creating call (mem_of_getElem? hcall)
        (by rw [Call.locksAddress, hphase])
      rw [(hinv.address.first hnone).1] at hold
      cases hold
    have hall : s.expiresAll call purpose = true := by
      rw [h.acceptable_issued hact hcall hphase] at hacceptable'
      subst hact
      have := hguard call hcall
      rw [Call.replacesAll, hphase] at this
      simpa [hacceptable'] using this
    have hlocks := expiresAll_apply hall hold hbefore
      ((h.old_row hinv.sound hold ha).1.symm.trans hpurpose)
    have hdead := h.written_dead hinv.sound hact hcall hphase hlocks hold ha
    rw [hacceptable] at hdead
    cases hdead
  intro i j a b ha hb hacceptable hacceptable' hpurpose
  rcases h.new_row ha with ⟨olda, holda⟩ | ⟨hi, -⟩
  · obtain ⟨oldb, holdb⟩ := hnew i j a b olda ha hb hacceptable hacceptable' hpurpose holda
    exact hone i j olda oldb holda holdb (h.acceptable hinv holda ha hacceptable)
      (h.acceptable hinv holdb hb hacceptable')
      ((h.old_row hinv.sound holda ha).1.symm.trans
        (hpurpose.trans (h.old_row hinv.sound holdb hb).1))
  · rcases h.new_row hb with ⟨oldb, holdb⟩ | ⟨hj, -⟩
    · obtain ⟨olda, holda⟩ := hnew j i b a oldb hb ha hacceptable' hacceptable hpurpose.symm holdb
      exact hone i j olda oldb holda holdb (h.acceptable hinv holda ha hacceptable)
        (h.acceptable hinv holdb hb hacceptable')
        ((h.old_row hinv.sound holda ha).1.symm.trans
          (hpurpose.trans (h.old_row hinv.sound holdb hb).1))
    · omega

theorem Fires.later_entry (h : Fires settings s act t) {later} (hlt : m < n)
    (hm : t.log[m]? = some entry) (hn : t.log[n]? = some later) :
    s.log[m]? = some entry ∧ (s.log[n]? = some later ∨
      ∃ c call read new now scope at', act = .commit c ∧ s.calls[c]? = some call ∧
        call.phase = .expiring (.write read new now) scope [] at' [] ∧ later = call.op.entry) := by
  rcases h.log with hlog | ⟨c, call, read, new, now, scope, at', hact, hcall, hphase, rfl⟩
  · rw [hlog] at hm hn
    exact ⟨hm, .inl hn⟩
  have hm : (s.log ++ [call.op.entry])[m]? = some entry := hm
  have hn : (s.log ++ [call.op.entry])[n]? = some later := hn
  have hlast := (List.getElem?_eq_some_iff.mp hn).1
  simp only [length_append, length_singleton] at hlast
  rw [List.getElem?_append_left (by omega)] at hm
  refine ⟨hm, ?_⟩
  by_cases hold : n < s.log.length
  · rw [List.getElem?_append_left hold] at hn
    exact .inl hn
  · rw [List.getElem?_append_right (by omega)] at hn
    exact .inr ⟨c, call, read, new, now, scope, at', hact, hcall, hphase,
      mem_singleton.mp (mem_of_getElem? hn)⟩

theorem mem_take_or_drop {log : List Entry} (hm : log[m]? = some entry) (k : Nat) :
    (m < k ∧ entry ∈ log.take k) ∨ (k ≤ m ∧ entry ∈ log.drop k) := by
  by_cases hk : m < k
  · exact .inl ⟨hk, mem_of_getElem? ((List.getElem?_take_of_lt hk).trans hm)⟩
  · refine .inr ⟨by omega, mem_of_getElem? (i := m - k) ?_⟩
    rw [List.getElem?_drop, Nat.add_sub_cancel' (by omega)]
    exact hm

theorem Fires.staysDisabled (h : Fires settings s act t) (hinv : Inv s)
    (hguard : AtCommit Call.isEnabled s act) (hstays : s.StaysDisabled) : t.StaysDisabled := by
  intro m n secret purpose hlt hm hn
  obtain ⟨hm, hn | ⟨c, call, read, new, now, scope, at', rfl, hcall, hphase, hentry⟩⟩ :=
    h.later_entry hlt hm hn
  · exact hstays m n secret purpose hlt hm hn
  obtain ⟨hsecret, hpurpose⟩ := entry_accepted hentry.symm
  rcases mem_take_or_drop hm call.timed with ⟨-, hmem⟩ | ⟨-, hmem⟩
  · have htold := hinv.told call (mem_of_getElem? hcall)
    have := htold.free (by rw [hphase]; rfl) purpose hpurpose _ hmem
    cases this
  · have hguard := hguard call hcall
    rw [Call.isEnabled, hphase] at hguard
    have hnot : Entry.disabled ∉ s.log.drop call.timed := by simpa [hsecret] using hguard
    exact hnot hmem

/-! ## No secret that was issued before a reset is accepted after it -/

/-- The secret is one for a reset, and its call had begun before a reset among
the first `n` entries of the log. -/
def State.Outdated (s : State) (n : Nat) (token : Token) : Prop :=
  token.purpose = .passwordReset ∧ ∃ m entry, m < n ∧ token.began ≤ m ∧
    s.log[m]? = some entry ∧ entry.isReset = true

/-- No password can be reset. -/
def State.Barred (s : State) : Prop := s.user.any (Purpose.passwordReset.permits ·) = false

/-- What a call that resets a password knows of outdated secrets. -/
structure Current (s : State) (call : Call) : Prop where
  timed : ∀ now, call.phase = .timed now → ∀ (place : Nat) (token : Token),
    s.tokens[place]? = some token → s.Outdated call.timed token →
      token.outstanding now = true → s.Barred
  consumed : call.phase = .consumed → ∀ (secret : Nat) (token : Token),
    call.op.secret = some secret → s.tokens[secret]? = some token →
      s.Outdated call.timed token → s.Barred
  read : call.phase.readRow.isSome → ∀ (secret : Nat) (token : Token),
    call.op.secret = some secret → s.tokens[secret]? = some token →
      ¬ s.Outdated call.timed token

/-- No outdated secret is acceptable, and no call accepts one. -/
structure Closed (s : State) : Prop where
  dead : ∀ (place : Nat) (token : Token), s.tokens[place]? = some token →
    s.Outdated s.log.length token → s.acceptable token = false
  calls : ∀ call ∈ s.calls, Current s call

theorem acceptable_of_outstanding (hpurpose : token.purpose = .passwordReset)
    (hacceptable : s.acceptable token = false) (houtstanding : token.outstanding s.clock = true) :
    s.Barred := by
  simpa [State.Barred, State.acceptable, houtstanding, hpurpose] using hacceptable

theorem Fires.barred (h : Fires settings s act t) (hinv : Inv s) (hlog : s.log ≠ [])
    (hbarred : s.Barred) : t.Barred := by
  cases huser : s.user with
  | none => exact absurd (hinv.address.first huser).2 hlog
  | some user =>
    obtain ⟨new, hnew, hlasts⟩ := h.lasts hinv.faithful hinv.address huser
    rw [State.Barred, huser] at hbarred
    rw [State.Barred, hnew]
    by_contra hpermits
    have hpermits : Purpose.passwordReset.permits new = true := Bool.not_eq_false _ ▸ hpermits
    have hbarred : Purpose.passwordReset.permits user = false := hbarred
    rw [hlasts.permits hpermits] at hbarred
    cases hbarred

theorem log_ne_nil (h : s.Outdated n token) : s.log ≠ [] := by
  obtain ⟨-, m, entry, -, -, hentry, -⟩ := h
  intro hnil
  rw [hnil] at hentry
  cases hentry

theorem Fires.outdated_old (h : Fires settings s act t) (hinv : Inv s)
    (hold : s.tokens[place]? = some old)
    (htoken : t.tokens[place]? = some token) (hn : n ≤ s.log.length)
    (houtdated : t.Outdated n token) : s.Outdated n old := by
  obtain ⟨hpurpose, m, entry, hm, hbegan, hentry, hreset⟩ := houtdated
  obtain ⟨new, hnew⟩ := h.log_append
  rw [hnew, List.getElem?_append_left (by omega)] at hentry
  have hlater := h.old_row hinv.sound hold htoken
  exact ⟨hlater.1 ▸ hpurpose, m, entry, hm, hlater.2.1 ▸ hbegan, hentry, hreset⟩

/-- A secret that is issued outdated is one for a user that cannot reset the password. -/
theorem Fires.outdated (h : Fires settings s act t) (hinv : Inv s)
    (hguard : AtCommit Call.inTime s act)
    (htoken : t.tokens[place]? = some token) (hn : n ≤ s.log.length)
    (houtdated : t.Outdated n token) : t.Barred ∨ ∃ old, s.tokens[place]? = some old ∧
      token.Later old ∧ s.Outdated n old := by
  rcases h.new_row htoken with ⟨old, hold⟩ | ⟨-, c, call, purpose, now, hact, hcall, rfl, hphase⟩
  · exact .inr ⟨old, hold, h.old_row hinv.sound hold htoken,
      h.outdated_old hinv hold htoken hn houtdated⟩
  obtain ⟨hpurpose, m, entry, hm, hbegan, hentry, hreset⟩ := houtdated
  have hentry : s.log[m]? = some entry := by
    obtain ⟨new, hnew⟩ := h.log_append
    rwa [hnew, List.getElem?_append_left (by omega)] at hentry
  rcases hphase with ⟨-, rfl⟩ | ⟨scope, at', hphase⟩
  · cases hpurpose
  obtain rfl : purpose = .passwordReset := hpurpose
  have hguard : call.inTime s = true := by
    subst hact
    exact hguard call hcall
  rw [Call.inTime, hphase] at hguard
  rcases Bool.or_eq_true_iff.mp hguard with hbarred | hguard
  · left
    refine h.barred hinv ?_ (by simpa [State.Barred] using hbarred)
    intro hnil
    rw [hnil] at hentry
    cases hentry
  · have hbegan : call.began ≤ m := hbegan
    rcases mem_take_or_drop hentry call.began with ⟨hlt, -⟩ | ⟨-, hmem⟩
    · omega
    · have := List.all_eq_true.mp hguard entry hmem
      rw [hreset] at this
      cases this

theorem not_acceptable_of_barred (hbarred : s.Barred)
    (hpurpose : token.purpose = .passwordReset) : s.acceptable token = false := by
  rw [State.acceptable, hpurpose]
  exact (congrArg _ hbarred).trans (Bool.and_false _)

/-- The law for the secrets: of the old entries, and of a reset that the step adds. -/
theorem Fires.dead (h : Fires settings s act t) (hinv : Inv s)
    (hguard : AtCommit Call.inTime s act) (hclosed : Closed s)
    (htoken : t.tokens[place]? = some token) (houtdated : t.Outdated t.log.length token) :
    t.acceptable token = false := by
  by_contra hacceptable
  have hacceptable : t.acceptable token = true := Bool.not_eq_false _ ▸ hacceptable
  by_cases hbefore : t.Outdated s.log.length token
  · rcases h.outdated hinv hguard htoken (Nat.le_refl _) hbefore with
      hbarred | ⟨old, hold, -, hold'⟩
    · rw [not_acceptable_of_barred hbarred houtdated.1] at hacceptable
      cases hacceptable
    · have hdead := hclosed.dead place old hold hold'
      rw [h.acceptable hinv hold htoken hacceptable] at hdead
      cases hdead
  obtain ⟨hpurpose, m, entry, hm, hbegan, hentry, hreset⟩ := houtdated
  have hm' : s.log.length ≤ m := by
    by_contra hlt
    exact hbefore ⟨hpurpose, m, entry, by omega, hbegan, hentry, hreset⟩
  rcases h.log with hlog | ⟨c, call, read, new, now, scope, at', rfl, hcall, hphase, rfl⟩
  · rw [hlog] at hm
    omega
  -- the reset has written every other secret that is acceptable
  have hentry : (s.log ++ [call.op.entry])[m]? = some entry := hentry
  rw [List.getElem?_append_right hm'] at hentry
  have heq : call.op.entry = entry := (mem_singleton.mp (mem_of_getElem? hentry)).symm
  obtain ⟨secret, hsecret⟩ : ∃ secret, entry = .accepted secret .passwordReset := by
    unfold Entry.isReset at hreset
    split at hreset
    · exact ⟨_, rfl⟩
    · cases hreset
  obtain ⟨hop, hopPurpose⟩ := entry_accepted (heq.trans hsecret)
  have hguard := hguard call hcall
  rw [Call.inTime, hphase] at hguard
  simp only [hop, hopPurpose] at hguard
  have hall : s.expiresAll call .passwordReset = true := by
    simpa using (Bool.and_eq_true_iff.mp hguard).2
  rcases h.new_row htoken with ⟨old, hold⟩ | ⟨hlast, -⟩
  · have hlocks := expiresAll_apply hall hold (h.acceptable hinv hold htoken hacceptable)
      ((h.old_row hinv.sound hold htoken).1.symm.trans hpurpose)
    have hdead := h.written_dead hinv.sound rfl hcall hphase hlocks hold htoken
    rw [hacceptable] at hdead
    cases hdead
  · have hlt := (List.getElem?_eq_some_iff.mp htoken).1
    have hlength : (applyWrites s.tokens call.writes).length = s.tokens.length :=
      applyWrites_length _ _
    have hlt : place < (applyWrites s.tokens call.writes).length := hlt
    omega

theorem Current.kept (h : Fires settings s act t) (hinv : Inv s)
    (hguard : AtCommit Call.inTime s act) (hcall : call ∈ s.calls)
    (hcurrent : Current s call) (htimed : next.timed = call.timed) (hop : next.op = call.op)
    (hphase : ∀ now, next.phase = .timed now → call.phase = .timed now)
    (hconsumed : next.phase = .consumed → call.phase = .consumed)
    (hread : next.phase.readRow.isSome → call.phase.readRow.isSome) : Current t next := by
  have hle := (hinv.told call hcall).timed
  refine ⟨?_, ?_, ?_⟩
  · intro now hnext place token htoken houtdated houtstanding
    rw [htimed] at houtdated
    rcases h.outdated hinv hguard htoken hle houtdated with
      hbarred | ⟨old, hold, hlater, houtdated⟩
    · exact hbarred
    · exact h.barred hinv (log_ne_nil houtdated) (hcurrent.timed now (hphase now hnext) place old
        hold houtdated (hlater.outstanding houtstanding))
  · intro hnext secret token hsecret htoken houtdated
    rw [htimed] at houtdated
    rcases h.outdated hinv hguard htoken hle houtdated with hbarred | ⟨old, hold, -, houtdated⟩
    · exact hbarred
    · exact h.barred hinv (log_ne_nil houtdated) (hcurrent.consumed (hconsumed hnext) secret old
        (hop ▸ hsecret) hold houtdated)
  · intro hnext secret token hsecret htoken houtdated
    rw [htimed] at houtdated
    have hsecret := hop ▸ hsecret
    obtain ⟨old, hold, -⟩ := (hinv.consuming call hcall secret hsecret (.inr (hread hnext))).row
    exact hcurrent.read (hread hnext) secret old hsecret hold
      (h.outdated_old hinv hold htoken hle houtdated)

theorem current_of_phase (htimed : ∀ now, call.phase ≠ .timed now)
    (hconsumed : call.phase ≠ .consumed) (hread : call.phase.readRow = none) : Current s call where
  timed := fun now hphase => absurd hphase (htimed now)
  consumed := fun hphase => absurd hphase hconsumed
  read := by
    intro hsome
    rw [hread] at hsome
    cases hsome

theorem Moved.current (h : Moved s c call next) (hfires : Fires settings s act t) (hinv : Inv s)
    (hguard : AtCommit Call.inTime s act) (hcall : s.calls[c]? = some call)
    (hclosed : Closed s) : Current t next := by
  have hmem := mem_of_getElem? hcall
  have hcurrent := hclosed.calls call hmem
  -- a call that has read the user and goes on
  have hgoes : call.phase.readRow.isSome → next.timed = call.timed → next.op = call.op →
      (∀ now, next.phase ≠ .timed now) → next.phase ≠ .consumed → Current t next := by
    intro hread htimed hop hnottimed hnotconsumed
    exact hcurrent.kept hfires hinv hguard hmem htimed hop
      (fun now hphase => absurd hphase (hnottimed now)) (fun hphase => absurd hphase hnotconsumed)
      fun _ => hread
  cases h with
  | timed hphase =>
    refine ⟨?_, nofun, nofun⟩
    rintro now ⟨⟩ place token htoken houtdated houtstanding
    rcases hfires.outdated hinv hguard htoken (Nat.le_refl _) houtdated with
      hbarred | ⟨old, hold, hlater, houtdated⟩
    · exact hbarred
    · exact hfires.barred hinv (log_ne_nil houtdated) (acceptable_of_outstanding houtdated.1
        (hclosed.dead place old hold houtdated) (hlater.outstanding houtstanding))
  | @checked user hphase huser hpermits hop =>
    refine ⟨nofun, nofun, ?_⟩
    intro _ secret token hsecret htoken houtdated
    have hconsumed : call.phase = .consumed := by
      rcases hphase with hphase | ⟨-, hnone⟩
      · exact hphase
      · have hsecret : call.op.secret = some secret := hsecret
        rw [hnone] at hsecret
        cases hsecret
    obtain ⟨old, hold, -, hpurpose⟩ :=
      (hinv.consuming call hmem secret hsecret (.inl hconsumed)).row
    have houtdated := hfires.outdated_old hinv hold htoken (hinv.told call hmem).timed houtdated
    have hbarred := hcurrent.consumed hconsumed secret old hsecret hold houtdated
    -- the user that it reads permits the reset
    rw [houtdated.1] at hpurpose
    have hpermits : Purpose.passwordReset.permits user = true := by
      simpa [Op.permits, hpurpose] using hpermits
    rw [State.Barred, huser] at hbarred
    have hbarred : Purpose.passwordReset.permits user = false := hbarred
    rw [hpermits] at hbarred
    cases hbarred
  | ready hphase | writing hphase => exact hgoes (by rw [hphase]; rfl) rfl rfl (by simp) (by simp)
  | @expiring work _ _ _ hphase =>
    cases work with
    | issue => exact current_of_phase (by simp) (by simp) rfl
    | write => exact hgoes (by rw [readRow_next hphase]; rfl) rfl rfl (by simp) (by simp)
  | @skipped work _ _ _ _ _ hphase =>
    cases work with
    | issue => exact current_of_phase (by simp) (by simp) rfl
    | write => exact hgoes (by rw [hphase]; rfl) rfl rfl (by simp) (by simp)
  | _ => exact current_of_phase (by simp) (by simp) rfl

theorem Fires.current (h : Fires settings s act t) (hinv : Inv s)
    (hguard : AtCommit Call.inTime s act) (hclosed : Closed s) :
    ∀ call ∈ t.calls, Current t call := by
  intro call hcall
  obtain ⟨d, hcall⟩ := List.getElem?_of_mem hcall
  cases h.becomes hcall with
  | same hold =>
    have hmem := mem_of_getElem? hold
    exact (hclosed.calls call hmem).kept h hinv hguard hmem rfl rfl (fun _ => id) id id
  | begun => exact current_of_phase nofun nofun rfl
  | moved hold hmoved hact =>
    exact hmoved.current h hinv hguard hold hclosed
  | finished => exact current_of_phase nofun nofun rfl
  | @consumed before now secret token hold hphase hsecret htoken hpurpose houtstanding hfree hact =>
    have hmem := mem_of_getElem? hold
    refine ⟨nofun, ?_, nofun⟩
    intro _ other token' hother htoken' houtdated
    obtain rfl : secret = other := some.inj (hsecret.symm.trans hother)
    have houtdated := h.outdated_old hinv htoken htoken' (hinv.told before hmem).timed houtdated
    exact h.barred hinv (log_ne_nil houtdated)
      ((hclosed.calls before hmem).timed now hphase secret token htoken houtdated houtstanding)
  | @expired before place token work scope scopes now todo hold hphase =>
    have hmem := mem_of_getElem? hold
    cases work with
    | issue => exact current_of_phase nofun nofun rfl
    | write =>
      exact (hclosed.calls before hmem).kept h hinv hguard hmem rfl rfl nofun nofun
        fun _ => by rw [hphase]; rfl

theorem Fires.closed (h : Fires settings s act t) (hinv : Inv s)
    (hguard : AtCommit Call.inTime s act) (hclosed : Closed s) : Closed t where
  dead := fun _ _ htoken houtdated => h.dead hinv hguard hclosed htoken houtdated
  calls := h.current hinv hguard hclosed

theorem closed_start (clock) : Closed (State.start clock) where
  dead := fun _ _ htoken => by cases htoken
  calls := forall_mem_nil _

theorem Fires.closedFor (h : Fires settings s act t) (hinv : Inv s)
    (hguard : AtCommit Call.inTime s act) (hclosed : Closed s) (hfor : s.ClosedFor) :
    t.ClosedFor := by
  intro m n entry secret purpose token hlt hm hn htoken hcloses
  obtain ⟨hm, hn | ⟨c, call, read, new, now, scope, at', rfl, hcall, hphase, hentry⟩⟩ :=
    h.later_entry hlt hm hn
  · obtain ⟨old, hold, -⟩ := hinv.accepted secret purpose (mem_of_getElem? hn)
    rw [(h.old_row hinv.sound hold htoken).2.1]
    exact hfor m n entry secret purpose old hlt hm hn hold hcloses
  have hmem := mem_of_getElem? hcall
  have hread : call.phase.readRow.isSome := by rw [hphase]; rfl
  obtain ⟨hsecret, hpurpose⟩ := entry_accepted hentry.symm
  obtain ⟨old, hold, -, hrow⟩ := (hinv.consuming call hmem secret hsecret (.inr hread)).row
  rw [(h.old_row hinv.sound hold htoken).2.1]
  by_contra hbegan
  have hguard := hguard call hcall
  rw [Call.inTime, hphase] at hguard
  simp only [hsecret, hpurpose, State.isOpen, hold, all_some] at hguard
  rcases mem_take_or_drop hm (max call.timed old.began) with ⟨hlt, -⟩ | ⟨-, hentry⟩
  · -- the call has read the user after the entry
    have htimed : m < call.timed := by omega
    have hentry := mem_of_getElem? ((List.getElem?_take_of_lt htimed).trans hm)
    have hfree := (hinv.told call hmem).free hread purpose hpurpose entry hentry
    -- what closes the purpose and does not bar it is a reset
    cases entry with
    | disabled => cases hfree
    | accepted other closed =>
      obtain rfl : closed = purpose := by simpa [Entry.closes] using hcloses
      cases closed with
      | emailVerification => simp [Entry.bars] at hfree
      | passwordReset =>
        refine (hclosed.calls call hmem).read hread secret old hsecret hold ?_
        rw [hpurpose] at hrow
        exact ⟨(some.inj hrow).symm, m, _, htimed, by omega, hm, rfl⟩
  · have := List.all_eq_true.mp (Bool.and_eq_true_iff.mp hguard).1 entry hentry
    rw [hcloses] at this
    cases this

/-! ## Every run -/

theorem inv_run {G clock acts} (h : Run (step settings) G (State.start clock) acts s) : Inv s := by
  refine h.invariant (I := Inv) ?_ (inv_start clock)
  intro s act t hinv _ hfires
  exact (step_fires hfires).inv hinv

/-- In every run each secret is accepted once. Where a new secret replaces the acceptable ones of
its purpose no two are acceptable; where no commit is late for its purpose, what it has closed stays
closed for earlier secrets; and where no consumer is late, a disabled account sees no effect. -/
theorem secrets_die (settings : Settings) (clock : Int) (acts : List Act) (s : State) :
    (Run (step settings) Free (State.start clock) acts s → s.AcceptedOnce) ∧
    (Run (step settings) (AtCommit (Call.replacesAll settings)) (State.start clock) acts s →
      s.OneAcceptable) ∧
    (Run (step settings) (AtCommit Call.inTime) (State.start clock) acts s → s.ClosedFor) ∧
    (Run (step settings) (AtCommit Call.isEnabled) (State.start clock) acts s →
      s.StaysDisabled) := by
  refine ⟨fun hrun => (inv_run hrun).once, ?_, ?_, ?_⟩
  · intro hrun
    have hkept : Inv s ∧ s.OneAcceptable := by
      refine hrun.invariant (I := fun s => Inv s ∧ s.OneAcceptable) ?_ ⟨inv_start clock, ?_⟩
      · rintro s act t ⟨hinv, hone⟩ hguard hfires
        exact ⟨(step_fires hfires).inv hinv, (step_fires hfires).oneAcceptable hinv hguard hone⟩
      · intro i j a b ha
        cases ha
    exact hkept.2
  · intro hrun
    have hkept : Inv s ∧ Closed s ∧ s.ClosedFor := by
      refine hrun.invariant (I := fun s => Inv s ∧ Closed s ∧ s.ClosedFor) ?_
        ⟨inv_start clock, closed_start clock, ?_⟩
      · rintro s act t ⟨hinv, hclosed, hfor⟩ hguard hfires
        have hfires := step_fires hfires
        exact ⟨hfires.inv hinv, hfires.closed hinv hguard hclosed,
          hfires.closedFor hinv hguard hclosed hfor⟩
      · intro m n entry secret purpose token _ hm
        cases hm
    exact hkept.2.2
  · intro hrun
    have hkept : Inv s ∧ s.StaysDisabled := by
      refine hrun.invariant (I := fun s => Inv s ∧ s.StaysDisabled) ?_ ⟨inv_start clock, ?_⟩
      · rintro s act t ⟨hinv, hstays⟩ hguard hfires
        exact ⟨(step_fires hfires).inv hinv, (step_fires hfires).staysDisabled hinv hguard hstays⟩
      · intro m n secret purpose _ hm
        cases hm
    exact hkept.2

def defaults : Settings :=
  { emailVerificationTtl := 86400
    passwordResetTtl := 1800
    accountEmailCooldown := 60 }

/-- The address is registered, with the secret 0. -/
def registered : List Act :=
  [.begin (.register "ada"), .readUser 0, .insertUser 0, .readClock 0, .commit 0]

/-- A call of `forgot_password` up to its UPDATE. -/
def forgotten (c : Nat) : List Act := [.readUser c, .readClock c, .selectLatest c]

/-- A call of `reset_password` from its start to its commit. -/
def reset (c secret : Nat) (now : Int) (rows : List Nat) : List Act :=
  [.begin (.resetPassword secret "hash"), .readClock c, .consume c, .readUser c, .readClock c,
    .updateUser c, .startUpdate c now] ++ rows.map (.updateRow c)

/-- A second secret replaces the first, is accepted, and the account is disabled. -/
theorem secrets_die_reset : ∃ s : State,
    s.log = [.accepted 2 .passwordReset, .disabled] ∧ s.AcceptedOnce ∧ s.OneAcceptable ∧
      s.ClosedFor ∧ s.StaysDisabled := by
  let acts := registered ++ .begin .forgotPassword :: forgotten 1 ++
    [.startUpdate 1 0, .commit 1, .tick 60, .begin .forgotPassword] ++ forgotten 2 ++
    [.startUpdate 2 60, .updateRow 2 1, .commit 2] ++ reset 3 2 60 [0] ++
    [.startUpdate 3 60, .commit 3, .begin .disableAccount, .readUser 4, .readClock 4,
      .updateUser 4, .startUpdate 4 60, .commit 4]
  have h : (execWithin (step defaults) Free (State.start 0) acts).any (fun s =>
      decide (s.log = [.accepted 2 .passwordReset, .disabled])) = true := by
    decide +kernel
  have hreplaces : (execWithin (step defaults) (AtCommit (Call.replacesAll defaults))
      (State.start 0) acts).isSome = true := by
    decide +kernel
  have hinTime : (execWithin (step defaults) (AtCommit Call.inTime)
      (State.start 0) acts).isSome = true := by
    decide +kernel
  have hisEnabled : (execWithin (step defaults) (AtCommit Call.isEnabled)
      (State.start 0) acts).isSome = true := by
    decide +kernel
  obtain ⟨s, hs, hlog⟩ := (Option.any_eq_true _ _).mp h
  have hrun : Run (step defaults) Free (State.start 0) acts s := .of_execWithin hs
  -- the guards do not change where a run leads
  have hsame : ∀ {G : State → Act → Prop} [∀ s a, Decidable (G s a)],
      (execWithin (step defaults) G (State.start 0) acts).isSome = true →
        Run (step defaults) G (State.start 0) acts s := by
    intro G _ hsome
    obtain ⟨t, ht⟩ := isSome_iff_exists.mp hsome
    have hfree : Run (step defaults) Free (State.start 0) acts t :=
      (Run.of_execWithin ht).of_forall fun _ _ _ => trivial
    obtain rfl := some.inj (hs.symm.trans hfree.execWithin_eq)
    exact .of_execWithin ht
  have hdie := secrets_die defaults 0 acts s
  exact ⟨s, of_decide_eq_true hlog, hdie.1 hrun, hdie.2.1 (hsame hreplaces),
    hdie.2.2.1 (hsame hinTime), hdie.2.2.2 (hsame hisEnabled)⟩

/-- Two calls of `forgot_password` do not see each other's secret. One that had begun before a reset
commits a secret that is accepted later. And `disable_account` does not wait for a consumer whose
secret has expired since. -/
theorem secrets_outlive :
    (∃ (acts : List Act) (s : State), Run (step defaults) Free (State.start 0) acts s ∧
      ¬ s.OneAcceptable) ∧
    (∃ (acts : List Act) (s : State), Run (step defaults) Free (State.start 0) acts s ∧
      ¬ s.ClosedFor) ∧
    ∃ (acts : List Act) (s : State), Run (step defaults) Free (State.start 0) acts s ∧
      ¬ s.StaysDisabled := by
  refine ⟨?_, ?_, ?_⟩
  · let acts := registered ++ [.begin .forgotPassword, .begin .forgotPassword] ++ forgotten 1 ++
      forgotten 2 ++ [.startUpdate 1 0, .startUpdate 2 0, .commit 1, .commit 2]
    have h : (execWithin (step defaults) Free (State.start 0) acts).any (fun s =>
        decide (s.tokens[1]? = some (newToken defaults .passwordReset 0 0)) &&
          decide (s.tokens[2]? = some (newToken defaults .passwordReset 0 0)) &&
            s.acceptable (newToken defaults .passwordReset 0 0)) = true := by
      decide +kernel
    obtain ⟨s, hs, hok⟩ := (Option.any_eq_true _ _).mp h
    simp only [Bool.and_eq_true, decide_eq_true_eq] at hok
    obtain ⟨⟨hfirst, hsecond⟩, hacceptable⟩ := hok
    refine ⟨acts, s, .of_execWithin hs, ?_⟩
    intro hone
    have := hone 1 2 _ _ hfirst hsecond hacceptable hacceptable rfl
    omega
  · let acts := registered ++ .begin .forgotPassword :: forgotten 1 ++
      [.startUpdate 1 0, .commit 1, .tick 60, .begin .forgotPassword] ++ forgotten 2 ++
      reset 3 1 60 [0] ++ [.startUpdate 2 60, .startUpdate 3 60, .commit 3, .updateRow 2 1,
        .commit 2] ++ reset 4 2 60 [] ++ [.commit 4]
    have h : (execWithin (step defaults) Free (State.start 0) acts).any (fun s =>
        decide (s.log = [.accepted 1 .passwordReset, .accepted 2 .passwordReset]) &&
          s.tokens[2]?.any fun token => token.began = 0) = true := by
      decide +kernel
    obtain ⟨s, hs, hok⟩ := (Option.any_eq_true _ _).mp h
    obtain ⟨hlog, htoken⟩ := Bool.and_eq_true_iff.mp hok
    obtain ⟨token, htoken, hbegan⟩ := (Option.any_eq_true _ _).mp htoken
    refine ⟨acts, s, .of_execWithin hs, ?_⟩
    intro hfor
    have hlog := of_decide_eq_true hlog
    have hlt := hfor 0 1 (.accepted 1 .passwordReset) 2 .passwordReset token (by omega)
      (by rw [hlog]; rfl) (by rw [hlog]; rfl) htoken rfl
    have hbegan := of_decide_eq_true hbegan
    omega
  · let acts := registered ++ [.tick 86399, .begin (.verifyEmail 0 "hash" "Ada"), .readClock 1,
      .consume 1, .readUser 1, .tick 1, .begin .disableAccount, .readUser 2, .readClock 2,
      .updateUser 2, .startUpdate 2 86400, .commit 2, .readClock 1, .updateUser 1,
      .startUpdate 1 86400, .commit 1]
    have h : (execWithin (step defaults) Free (State.start 0) acts).any (fun s =>
        decide (s.log = [.disabled, .accepted 0 .emailVerification])) = true := by
      decide +kernel
    obtain ⟨s, hs, hok⟩ := Run.of_any h
    have hlog := of_decide_eq_true hok
    refine ⟨acts, s, hs, ?_⟩
    intro hstays
    exact hstays 0 1 0 .emailVerification (by omega) (by rw [hlog]; rfl) (by rw [hlog]; rfl)

end StudioOS.Accounts.Secrets
