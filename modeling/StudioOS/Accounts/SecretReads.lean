import Mathlib.Data.List.Nodup
import StudioOS.Accounts.SecretSteps

/-!
# SecretReads — what a consumer knows when it commits

The secret that it has consumed is its own until then, so each is accepted
once; and the status of the user that it has read says what had been accepted
or disabled by then.
-/

namespace StudioOS.Accounts.Secrets

open List Option

variable {settings : Settings} {s t : State} {act : Act}

variable {c d secret : Nat} {call next : Call}

/-! ## The address -/

/-- The phases that come after the user was found. -/
def Phase.needsUser : Phase → Bool
  | .issuer | .latest _ | .checked _ | .ready .. | .updating .. | .expiring .. => true
  | _ => false

/-- The user is created once, before anything else. -/
structure Address (s : State) : Prop where
  first : s.user = none → s.tokens = [] ∧ s.log = []
  needs : ∀ call ∈ s.calls, call.phase.needsUser = true → s.user.isSome
  creating : ∀ call ∈ s.calls, call.locksAddress = true → s.user = none
  single : ∀ (c d : Nat) (a b : Call), s.calls[c]? = some a → s.calls[d]? = some b →
    a.locksAddress = true → b.locksAddress = true → c = d

theorem Fires.user_isSome (h : Fires settings s act t) (hsome : s.user.isSome) : t.user.isSome := by
  cases h with
  | created => rfl
  | committed =>
    rename_i work _ _ _ _
    cases work with
    | issue => exact hsome
    | write => simpa [State.commit] using hsome
  | _ => exact hsome

variable {phase : Phase} {work : Work} {scope : Option Purpose}
  {token : Token} {op : Op}

theorem needsUser_next {scopes} (h : phase.next = some
    (work, scope, scopes)) : phase.needsUser = true := by
  rcases next_cases h with rfl | ⟨before, now, rfl⟩ <;> rfl

theorem Moved.needsUser (h : Moved s c call next)
    (hneeds : next.phase.needsUser = true) : s.user.isSome ∨ call.phase.needsUser = true := by
  cases h with
  | issuer _ huser => exact .inl huser
  | latest hphase => exact .inr (hphase ▸ rfl)
  | checked _ huser => exact .inl (huser ▸ rfl)
  | ready hphase | issuing hphase | writing hphase => exact .inr (hphase ▸ rfl)
  | expiring hphase => exact .inr (needsUser_next hphase)
  | skipped _ hphase => exact .inr (hphase ▸ rfl)
  | _ => cases hneeds

theorem Fires.needs (h : Fires settings s act t) (haddress : Address s) :
    ∀ call ∈ t.calls, call.phase.needsUser = true → t.user.isSome := by
  intro call hcall hneeds
  obtain ⟨d, hcall⟩ := List.getElem?_of_mem hcall
  refine h.user_isSome ?_
  have hbefore : ∀ {before : Call}, s.calls[d]? = some before →
      before.phase.needsUser = true → s.user.isSome :=
    fun hbefore => haddress.needs _ (mem_of_getElem? hbefore)
  cases h.becomes hcall with
  | same hold => exact hbefore hold hneeds
  | moved hold hmoved =>
    rcases hmoved.needsUser hneeds with huser | hneeds
    · exact huser
    · exact hbefore hold hneeds
  | expired hold hphase => exact hbefore hold (hphase ▸ rfl)
  | _ => cases hneeds

theorem Fires.first (h : Fires settings s act t) (haddress : Address s) :
    t.user = none → t.tokens = [] ∧ t.log = [] := by
  intro hnone
  have hnot : ¬ s.user.isSome := by
    intro hsome
    have := h.user_isSome hsome
    rw [hnone] at this
    cases this
  have hbefore : s.user = none := by simpa using hnot
  cases h with
  | created => cases hnone
  | committed hcall hphase =>
    exact absurd (haddress.needs _ (mem_of_getElem? hcall) (hphase ▸ rfl)) hnot
  | _ => exact haddress.first hbefore

theorem Moved.locksAddress (h : Moved s c call next) (hlocks : next.locksAddress = true) :
    call.locksAddress = true ∨ (s.user = none ∧ s.addressLocked c = false) := by
  cases h with
  | inserted _ hnone hfree => exact .inr ⟨hnone, hfree⟩
  | creating hphase => exact .inl (by rw [Call.locksAddress, hphase])
  | _ => cases hlocks

theorem addressLocked_eq_false (h : s.addressLocked c = false)
    (hcall : s.calls[d]? = some call) (hd : d ≠ c) : call.locksAddress = false := by
  have hnot := List.any_eq_false.mp h (call, d) (List.mem_zipIdx_iff_getElem?.mpr hcall)
  simpa [hd] using hnot

/-- A call that has inserted the address had, or inserts it while nobody else has. -/
theorem Fires.locksAddress (h : Fires settings s act t)
    (hcall : t.calls[d]? = some call) (hlocks : call.locksAddress = true) :
    (∃ before, s.calls[d]? = some before ∧ before.locksAddress = true ∧
      ∀ c, act = .commit c → d ≠ c) ∨
      (s.user = none ∧ act.statement = some d ∧ s.addressLocked d = false) := by
  cases h.becomes hcall with
  | same hold hother => exact .inl ⟨call, hold, hlocks, hother⟩
  | @moved before _ hold hmoved hact =>
    rcases hmoved.locksAddress hlocks with hbefore | ⟨hnone, hfree⟩
    · refine .inl ⟨before, hold, hbefore, ?_⟩
      rintro c rfl
      cases hact
    · exact .inr ⟨hnone, hact, hfree⟩
  | _ => cases hlocks

theorem Fires.single (h : Fires settings s act t) (haddress : Address s) {a b}
    (ha : t.calls[c]? = some a) (hb : t.calls[d]? = some b) (hlocks : a.locksAddress = true)
    (hlocks' : b.locksAddress = true) : c = d := by
  rcases h.locksAddress ha hlocks with ⟨olda, holda, holdlocks, -⟩ | ⟨-, hact, hfree⟩
  · rcases h.locksAddress hb hlocks' with ⟨oldb, holdb, holdlocks', -⟩ | ⟨-, hact, hfree⟩
    · exact haddress.single c d olda oldb holda holdb holdlocks holdlocks'
    · by_contra hne
      have := addressLocked_eq_false hfree holda hne
      rw [holdlocks] at this
      cases this
  · rcases h.locksAddress hb hlocks' with ⟨oldb, holdb, holdlocks', -⟩ | ⟨-, hact', -⟩
    · by_contra hne
      have := addressLocked_eq_false hfree holdb (Ne.symm hne)
      rw [holdlocks'] at this
      cases this
    · exact some.inj (hact.symm.trans hact')

theorem Fires.creating (h : Fires settings s act t) (haddress : Address s) :
    ∀ call ∈ t.calls, call.locksAddress = true → t.user = none := by
  intro call hcall hlocks
  obtain ⟨d, hcall⟩ := List.getElem?_of_mem hcall
  have hnone : s.user = none := by
    rcases h.locksAddress hcall hlocks with ⟨before, hbefore, hlocks, -⟩ | ⟨hnone, -, -⟩
    · exact haddress.creating before (mem_of_getElem? hbefore) hlocks
    · exact hnone
  cases h with
  | @created c acting localPart now hacting hphase =>
    -- the user is created by the call that has inserted it
    rcases put_call hcall with ⟨-, rfl⟩ | ⟨hd, hother⟩
    · cases hlocks
    · exact absurd (haddress.single d c call acting hother hacting hlocks
        (by rw [Call.locksAddress, hphase])) hd
  | committed hacting hphase =>
    have := haddress.needs _ (mem_of_getElem? hacting) (hphase ▸ rfl)
    rw [hnone] at this
    cases this
  | _ => exact hnone

theorem address_start (clock) : Address (State.start clock) where
  first := fun _ => ⟨rfl, rfl⟩
  needs := forall_mem_nil _
  creating := forall_mem_nil _
  single := fun _ _ _ _ h => by cases h

theorem Fires.address (h : Fires settings s act t) (haddress : Address s) : Address t where
  first := h.first haddress
  needs := h.needs haddress
  creating := h.creating haddress
  single := fun _ _ _ _ ha hb => h.single haddress ha hb

/-! ## The secret that is consumed -/

/-- The row of the user that a call writes from. -/
def Phase.readRow : Phase → Option UserRow
  | .checked read | .ready read _ | .updating (.write read ..) _
  | .expiring (.write read ..) .. => some read
  | _ => none

theorem readRow_next {scopes} (h : phase.next = some (work, scope, scopes)) :
    phase.readRow = (Phase.updating work scopes).readRow := by
  rcases next_cases h with rfl | ⟨before, now, rfl⟩ <;> cases work <;> rfl

/-- The call has consumed its secret, if it has one. -/
def Call.Holds (call : Call) : Prop := call.phase = .consumed ∨ call.phase.readRow.isSome

/-- A secret that is consumed is still committed as it was, and written as consumed. -/
structure Consumed (s : State) (call : Call) (secret : Nat) : Prop where
  locked : call.locks secret = true
  consumes : ∀ token, (secret, token) ∈ call.writes → token.consumedAt.isSome
  row : ∃ token, s.tokens[secret]? = some token ∧ token.consumedAt = none ∧
    call.op.purpose = some token.purpose

def State.Consuming (s : State) : Prop :=
  ∀ call ∈ s.calls, ∀ secret, call.op.secret = some secret → call.Holds → Consumed s call secret

theorem Moved.holds (h : Moved s c call next)
    (hsecret : call.op.secret = some secret) (hholds : next.Holds) : call.Holds := by
  cases h with
  | checked hphase =>
    rcases hphase with hphase | ⟨-, hnone⟩
    · exact .inl hphase
    · rw [hsecret] at hnone
      cases hnone
  | ready hphase | writing hphase => exact .inr (by rw [hphase]; rfl)
  | @expiring work _ _ _ hphase =>
    cases work with
    | issue => rcases hholds with hholds | hholds <;> cases hholds
    | write => exact .inr (by rw [readRow_next hphase]; rfl)
  | @skipped work _ _ _ _ _ hphase =>
    cases work with
    | issue => rcases hholds with hholds | hholds <;> cases hholds
    | write => exact .inr (by rw [hphase]; rfl)
  | _ => rcases hholds with hholds | hholds <;> cases hholds

theorem Consumed.kept (h : Fires settings s act t) (hex : s.Exclusive)
    (hcall : s.calls[d]? = some call)
    (hother : ∀ c, act = .commit c → d ≠ c) (hconsumed : Consumed s call secret)
    (hwrites : next.writes = call.writes) (hop : next.op = call.op) : Consumed t next secret where
  locked := by rw [Call.locks, hwrites]; exact hconsumed.locked
  consumes := hwrites ▸ hconsumed.consumes
  row := by
    obtain ⟨token, htoken, hnone, hpurpose⟩ := hconsumed.row
    exact ⟨token, h.locked_row hex hcall hother hconsumed.locked htoken, hnone, hop ▸ hpurpose⟩

theorem Consumed.seen (h : Consumed s call secret)
    (hseen : s.seen call secret = some token) : token.consumedAt.isSome := by
  unfold State.seen at hseen
  cases hfind : call.writes.find? (·.1 = secret) with
  | none =>
    have hlocked := h.locked
    obtain ⟨write, hwrite, hplace⟩ := List.any_eq_true.mp hlocked
    exact absurd hplace (List.find?_eq_none.mp hfind write hwrite)
  | some write =>
    rw [hfind] at hseen
    obtain rfl : write.2 = token := some.inj hseen
    have hplace : write.1 = secret := by simpa using List.find?_some hfind
    exact h.consumes _ (hplace ▸ List.mem_of_find?_eq_some hfind)

theorem Fires.consuming (h : Fires settings s act t) (hex : s.Exclusive)
    (hconsuming : s.Consuming) : t.Consuming := by
  intro call hcall secret hsecret hholds
  obtain ⟨d, hcall⟩ := List.getElem?_of_mem hcall
  have hnever : act.statement = some d → ∀ c, act = .commit c → d ≠ c := by
    rintro hact c rfl
    cases hact
  cases h.becomes hcall with
  | same hold hother =>
    exact (hconsuming call (mem_of_getElem? hold) secret hsecret hholds).kept h hex hold
      hother rfl rfl
  | begun => rcases hholds with hholds | hholds <;> cases hholds
  | moved hold hmoved hact =>
    have hsecret' := hmoved.op ▸ hsecret
    exact (hconsuming _ (mem_of_getElem? hold) secret hsecret'
      (hmoved.holds hsecret' hholds)).kept h hex hold (hnever hact) hmoved.writes hmoved.op
  | finished => rcases hholds with hholds | hholds <;> cases hholds
  | @consumed before now other token hold hphase hother htoken hpurpose houtstanding hfree hact =>
    obtain rfl : other = secret := some.inj (hother.symm.trans hsecret)
    exact
      { locked := by simp [Call.locks]
        consumes := by
          intro token' hwrite
          cases mem_singleton.mp hwrite
          rfl
        row := by
          refine ⟨token, h.row_same (isCommit_of_statement hact) htoken, ?_, hpurpose⟩
          simp only [Token.outstanding, Bool.and_eq_true, isNone_iff_eq_none] at houtstanding
          exact houtstanding.1 }
  | @expired before place token work scope scopes now todo hold hphase hseen houtstanding hfree
      hact =>
      have hbefore : before.Holds := by
        cases work with
        | issue => rcases hholds with hholds | hholds <;> cases hholds
        | write => exact .inr (by rw [hphase]; rfl)
      have hconsumed := hconsuming before (mem_of_getElem? hold) secret hsecret hbefore
      -- the UPDATE does not come to the secret that the call has consumed
      have hplace : place ≠ secret := by
        rintro rfl
        have hsome := hconsumed.seen hseen
        simp only [Token.outstanding, Bool.and_eq_true, isNone_iff_eq_none] at houtstanding
        rw [houtstanding.1] at hsome
        cases hsome
      obtain ⟨row, hrow, hnone, hpurpose⟩ := hconsumed.row
      exact
        { locked := by
            obtain ⟨token', hwrite⟩ := Call.locks_iff.mp hconsumed.locked
            exact Call.locks_iff.mpr ⟨token', .tail _ hwrite⟩
          consumes := by
            intro token' hwrite
            rcases mem_cons.mp hwrite with heq | hwrite
            · exact absurd (congrArg Prod.fst heq).symm hplace
            · exact hconsumed.consumes token' hwrite
          row := ⟨row, h.row_same (isCommit_of_statement hact) hrow, hnone, hpurpose⟩ }

/-! ## The log -/

theorem Fires.log (h : Fires settings s act t) : t.log = s.log ∨
    ∃ c call read new now scope at', act = .commit c ∧ s.calls[c]? = some call ∧
      call.phase = .expiring (.write read new now) scope [] at' [] ∧
        t = s.commit settings c call (.write read new now) := by
  cases h with
  | @committed c call work scope now hcall hphase =>
    cases work with
    | issue => exact .inl rfl
    | write read new at' =>
      exact .inr ⟨c, call, read, new, at', scope, now, rfl, hcall, hphase, rfl⟩
  | _ => exact .inl rfl

theorem Fires.later (h : Fires settings s act t) (hsound : s.Sound) {place : Nat}
    (htoken : s.tokens[place]? = some token) :
    ∃ new, t.tokens[place]? = some new ∧ new.Later token := by
  obtain ⟨new, hnew, ⟨rfl, -⟩ | hwrite⟩ := h.row htoken
  · exact ⟨new, hnew, .refl new⟩
  refine ⟨new, hnew, ?_⟩
  cases act with
  | commit c =>
    cases hcall : s.calls[c]? with
    | none => simp [State.writes, hcall] at hwrite
    | some call =>
      simp only [State.writes, hcall] at hwrite
      split at hwrite
      · obtain ⟨row, hrow, hlater⟩ :=
          (hsound call (mem_of_getElem? hcall) _ hwrite).row
        obtain rfl := some.inj (htoken.symm.trans hrow)
        exact hlater
      · cases hwrite
  | _ => cases hwrite

/-- What was accepted is consumed. -/
def State.Accepted (s : State) : Prop :=
  ∀ secret purpose, Entry.accepted secret purpose ∈ s.log →
    ∃ token, s.tokens[secret]? = some token ∧ token.consumedAt.isSome ∧ token.purpose = purpose

theorem entry_accepted {purpose} (h : op.entry = .accepted secret purpose) :
    op.secret = some secret ∧ op.purpose = some purpose := by
  unfold Op.entry at h
  split at h
  · rename_i hsecret hpurpose
    cases h
    exact ⟨hsecret, hpurpose⟩
  · cases h

theorem entry_of_secret (h : op.secret = some secret) :
    ∃ purpose, op.purpose = some purpose ∧ op.entry = .accepted secret purpose := by
  cases op <;> cases h <;> exact ⟨_, rfl, rfl⟩

theorem committed_row {read new now} (hconsumed : Consumed s call secret) :
    ∃ token, (s.commit settings c call (.write read new now)).tokens[secret]? = some token ∧
      token.consumedAt.isSome := by
  obtain ⟨token, htoken, -⟩ := hconsumed.row
  obtain ⟨new, hnew, ⟨-, hnot⟩ | hwrite⟩ := applyWrites_row call.writes htoken
  · obtain ⟨token', hwrite⟩ := Call.locks_iff.mp hconsumed.locked
    exact absurd rfl (hnot _ hwrite)
  · exact ⟨new, hnew, hconsumed.consumes new hwrite⟩

theorem Fires.accepted (h : Fires settings s act t) (hsound : s.Sound) (hconsuming : s.Consuming)
    (haccepted : s.Accepted) : t.Accepted := by
  intro secret purpose hmem
  have hkept : Entry.accepted secret purpose ∈ s.log → ∃ token, t.tokens[secret]? = some token ∧
      token.consumedAt.isSome ∧ token.purpose = purpose := by
    intro hold
    obtain ⟨token, htoken, hsome, hpurpose⟩ := haccepted secret purpose hold
    obtain ⟨new, hnew, hlater⟩ := h.later hsound htoken
    exact ⟨new, hnew, hlater.2.2.1 hsome, hlater.1.trans hpurpose⟩
  rcases h.log with hlog | ⟨c, call, read, new, now, scope, at', rfl, hcall, hphase, rfl⟩
  · exact hkept (hlog ▸ hmem)
  rcases mem_append.mp hmem with hold | hnew
  · exact hkept hold
  obtain ⟨hsecret, hpurpose⟩ := entry_accepted (mem_singleton.mp hnew).symm
  have hconsumed := hconsuming call (mem_of_getElem? hcall) secret hsecret
    (.inr (by rw [hphase]; rfl))
  obtain ⟨token, htoken, hsome⟩ := committed_row hconsumed
  refine ⟨token, htoken, hsome, ?_⟩
  obtain ⟨row, hrow, -, hrowPurpose⟩ := hconsumed.row
  obtain ⟨later, hlater, hrel⟩ := h.later hsound hrow
  obtain rfl := some.inj (htoken.symm.trans hlater)
  rw [hpurpose] at hrowPurpose
  exact hrel.1.trans (some.inj hrowPurpose).symm

theorem Fires.acceptedOnce (h : Fires settings s act t) (hconsuming : s.Consuming)
    (haccepted : s.Accepted) (honce : s.AcceptedOnce) : t.AcceptedOnce := by
  rcases h.log with hlog | ⟨c, call, read, new, now, scope, at', rfl, hcall, hphase, rfl⟩
  · rw [State.AcceptedOnce, hlog]
    exact honce
  show ((s.log ++ [call.op.entry]).filterMap Entry.secret).Nodup
  rw [filterMap_append]
  cases hsecret : call.op.secret with
  | none =>
    have hentry : call.op.entry = .disabled := by
      unfold Op.entry
      rw [hsecret]
    rw [hentry]
    show (s.log.filterMap Entry.secret ++ []).Nodup
    rw [append_nil]
    exact honce
  | some secret =>
    obtain ⟨purpose, -, hentry⟩ := entry_of_secret hsecret
    rw [hentry]
    refine nodup_append.mpr ⟨honce, by simp [Entry.secret], ?_⟩
    intro a ha b hb heq
    obtain ⟨entry, hmem, ha⟩ := mem_filterMap.mp ha
    obtain rfl : b = secret := by simpa [Entry.secret] using hb
    subst heq
    obtain ⟨row, hrow, hnone, -⟩ := (hconsuming call (mem_of_getElem? hcall) a hsecret
      (.inr (by rw [hphase]; rfl))).row
    cases entry with
    | disabled => cases ha
    | accepted other purpose' =>
      obtain rfl := some.inj ha
      obtain ⟨token, htoken, hsome, -⟩ := haccepted other purpose' hmem
      obtain rfl := some.inj (hrow.symm.trans htoken)
      rw [hnone] at hsome
      cases hsome

end StudioOS.Accounts.Secrets
