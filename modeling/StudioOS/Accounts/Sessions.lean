import StudioOS.RefreshTokens.Family
import StudioOS.Accounts.Users

/-!
# Sessions — an account and the sessions that are read off it

Logins, refresh rotations and the operations on one account under READ
COMMITTED. Each reads the row of the account at one moment and commits at
another; in between anything may happen to the row.
-/

namespace StudioOS.Accounts

open List Option Runs RefreshTokens

variable {family : RefreshTokens.State} {v : Int} {act : RefreshTokens.Act} {user : UserRow}

structure AccessClaims where
  userId : Uuid
  machineId : Uuid
  authVersion : Int

/-- `resolve_jwt_machine`, on the rows it reads. -/
def resolveJwtMachine (machine : Option MachineRow) (user : Option UserRow)
    (claims : AccessClaims) : Bool :=
  match machine with
  | none => false
  | some machine =>
    if machine.credentialRevokedAt.isSome then false
    else if machine.ownerUserId ≠ some claims.userId then false
    else
      match user with
      | none => false
      | some user => user.isActive && user.authVersion = claims.authVersion

/-- What `_session_owner` asks of the row. -/
def UserRow.owner (user : UserRow) : RefreshTokens.UserRow :=
  { isActive := user.isActive, authVersion := user.authVersion }

/-- A login: the row it has read, and what it has brought. -/
structure Login where
  read : UserRow
  answered : Bool
  access : List AccessClaims
  family : Option RefreshTokens.State

/-- An operation: the row it has read, and whether it is over. -/
structure Writer where
  op : Op
  read : UserRow
  finished : Bool
deriving DecidableEq

structure State where
  user : UserRow
  writers : List Writer
  logins : List Login

def State.start (user : UserRow) : State := { user := user, writers := [], logins := [] }

inductive Act where
  /-- An operation reads the row. -/
  | begin (op : Op)
  /-- It commits. -/
  | commit (w : Nat)
  /-- A login reads the row. -/
  | login (password : String)
  /-- It issues its tokens, for a dashboard machine. -/
  | answer (l : Nat) (machineId : Uuid) (persistent : Bool) (now : Int)
  /-- A step of a transaction on the refresh tokens of a login. -/
  | refresh (l : Nat) (act : RefreshTokens.Act)

structure Config where
  env : Env
  settings : Settings
  userId : Uuid

/-- `_session_owner` reads the row as it is now. -/
def reading (user : UserRow) : RefreshTokens.Act → RefreshTokens.Act
  | .owner c machine _ => .owner c machine (some user.owner)
  | act => act

/-- The access token that goes with the commit of a rotation. -/
def rotated (family : RefreshTokens.State) : RefreshTokens.Act → List AccessClaims
  | .commit c =>
    match (family.callers[c]?).map Caller.phase with
    | some (.issuing row) =>
      [{ userId := row.userId, machineId := row.machineId, authVersion := row.authVersion }]
    | _ => []
  | _ => []

def Login.answer (config : Config) (login : Login) (machineId : Uuid) (persistent : Bool)
    (now : Int) : Login :=
  { login with
    answered := true
    access := [{ userId := config.userId, machineId := machineId,
                 authVersion := login.read.authVersion }]
    family := if persistent then
        some (RefreshTokens.State.issued config.settings now config.userId machineId
          login.read.authVersion)
      else none }

def Login.refresh (config : Config) (user : UserRow) (login : Login) (act : RefreshTokens.Act) :
    Option Login :=
  login.family.bind fun family =>
    (RefreshTokens.step config.settings family (reading user act)).map fun next =>
      { login with access := login.access ++ rotated family act, family := some next }

def Writer.commit (config : Config) (writer : Writer) (user : UserRow) : UserRow :=
  if writer.op.applies config.env writer.read then
    UserRow.flush writer.read (writer.op.write writer.read) user
  else user

def step (config : Config) (s : State) : Act → Option State
  | .begin op => some { s with writers := s.writers ++ [⟨op, s.user, false⟩] }
  | .commit w => s.writers[w]?.bind fun writer =>
    if writer.finished then none
    else some { s with
      user := writer.commit config s.user
      writers := s.writers.set w { writer with finished := true } }
  | .login password =>
    if verifyUserPassword config.env s.user password then
      some { s with logins := s.logins ++ [⟨s.user, false, [], none⟩] }
    else some s
  | .answer l machineId persistent now => s.logins[l]?.bind fun login =>
    if login.answered then none
    else some { s with logins := s.logins.set l (login.answer config machineId persistent now) }
  | .refresh l act => s.logins[l]?.bind fun login =>
    (login.refresh config s.user act).map fun login =>
      { s with logins := s.logins.set l login }

/-- An operation that revokes the sessions when it commits. -/
def Writer.revokes (config : Config) (writer : Writer) : Bool :=
  writer.op.revokes && writer.op.applies config.env writer.read

/-- A revocation commits on the counter that it has read. -/
def Current (config : Config) (s : State) : Act → Prop
  | .commit w => ∀ writer ∈ s.writers[w]?, writer.revokes config = true →
      writer.read.authVersion = s.user.authVersion
  | _ => True

instance (config : Config) (s : State) (act : Act) : Decidable (Current config s act) :=
  match act with
  | .commit w => inferInstanceAs (Decidable (∀ writer ∈ s.writers[w]?,
      writer.revokes config = true → writer.read.authVersion = s.user.authVersion))
  | .begin _ | .login _ | .answer .. | .refresh .. => .isTrue trivial

/-- The refresh tokens a family has, and those that a rotation has in hand. -/
def Holds (family : RefreshTokens.State) (row : TokenRow) : Prop :=
  row ∈ family.tokens ∨
    ∃ k ∈ family.callers, k.phase = .consumed row ∨ k.phase = .issuing row

/-- No token of the login is accepted: no access token by
`resolve_jwt_machine`, no refresh token by the owner check of `rotate`. -/
structure Login.Dead (login : Login) (user : UserRow) : Prop where
  access : ∀ claims ∈ login.access, ∀ machine,
    resolveJwtMachine machine (some user) claims = false
  refresh : ∀ family ∈ login.family, ∀ row, Holds family row → ∀ machine,
    sessionOwner machine (some user.owner) row = false

/-! ## Tokens carry the counter that the login has read -/

theorem holds_set {tokens nextId locks c k row}
    (h : Holds ⟨tokens, nextId, locks, family.callers.set c k⟩ row) :
    row ∈ tokens ∨ (k.phase = .consumed row ∨ k.phase = .issuing row) ∨ Holds family row := by
  rcases h with hmem | ⟨other, hother, hphase⟩
  · exact .inl hmem
  · rcases mem_or_eq_of_mem_set hother with hother | rfl
    · exact .inr (.inr (.inr ⟨other, hother, hphase⟩))
    · exact .inr (.inl hphase)

theorem write_authVersion (k : Caller) {tokens : List TokenRow}
    (h : ∀ row ∈ tokens, row.authVersion = v) :
    ∀ row ∈ tokens.map k.write, row.authVersion = v := by
  intro row hrow
  obtain ⟨old, hold, rfl⟩ := List.mem_map.mp hrow
  exact h old hold

theorem holds_step {settings next} (hstep : RefreshTokens.step settings family act = some next)
    (h : ∀ row, Holds family row → row.authVersion = v) :
    ∀ row, Holds next row → row.authVersion = v := by
  intro row hrow
  cases step_fires hstep with
  | begin =>
    rcases hrow with hmem | ⟨k, hk, hphase⟩
    · exact h row (.inl hmem)
    · rcases mem_append.mp hk with hk | hk
      · exact h row (.inr ⟨k, hk, hphase⟩)
      · rw [mem_singleton.mp hk] at hphase
        rcases hphase with hphase | hphase <;> cases hphase
  | move hk hidle =>
    rcases holds_set hrow with hmem | hphase | hheld
    · exact h row (.inl hmem)
    · rcases hphase with rfl | rfl <;> cases hidle
    · exact h row hheld
  | consume hk _ hfound _ _ =>
    rcases holds_set hrow with hmem | hphase | hheld
    · exact h row (.inl hmem)
    · rcases hphase with hphase | hphase <;> cases hphase
      exact h row (.inl (row_some hfound).1)
    · exact h row hheld
  | @own _ c k consumed hk hconsumed =>
    rcases holds_set hrow with hmem | hphase | hheld
    · exact h row (.inl hmem)
    · rcases hphase with hphase | hphase <;> cases hphase
      exact h row (.inr ⟨k, mem_of_getElem? hk, .inl hconsumed⟩)
    · exact h row hheld
  | snapshot | revokeRow | skip | finish =>
    rcases holds_set hrow with hmem | hphase | hheld
    · exact h row (.inl hmem)
    · rcases hphase with hphase | hphase <;> cases hphase
    · exact h row hheld
  | @issue c k issuing hk hissuing =>
    rcases holds_set hrow with hmem | hphase | hheld
    · rcases mem_append.mp hmem with hmem | hmem
      · exact write_authVersion k (fun old hold => h old (.inl hold)) row hmem
      · rw [mem_singleton.mp hmem]
        exact h issuing (.inr ⟨k, mem_of_getElem? hk, .inr hissuing⟩)
    · rcases hphase with hphase | hphase <;> cases hphase
    · exact h row hheld
  | @revoke c k cause hk hrevoking =>
    rcases holds_set hrow with hmem | hphase | hheld
    · exact write_authVersion k (fun old hold => h old (.inl hold)) row hmem
    · rcases hphase with hphase | hphase <;> cases hphase
    · exact h row hheld

/-- All tokens of a login have the counter that it has read. -/
structure Login.Bound (login : Login) : Prop where
  access : ∀ claims ∈ login.access, claims.authVersion = login.read.authVersion
  refresh : ∀ family ∈ login.family, ∀ row, Holds family row →
    row.authVersion = login.read.authVersion

variable {config : Config}

theorem Login.Bound.answer (login : Login) (machineId persistent now) :
    (login.answer config machineId persistent now).Bound := by
  constructor
  · intro claims hclaims
    rw [mem_singleton.mp hclaims]
    rfl
  intro family hfamily row hrow
  cases persistent with
  | false => cases hfamily
  | true =>
    cases hfamily
    rcases hrow with hmem | ⟨k, hk, -⟩
    · rw [mem_singleton.mp hmem]
      rfl
    · cases hk

theorem rotated_authVersion (h : ∀ row, Holds family row → row.authVersion = v) :
    ∀ claims ∈ rotated family act, claims.authVersion = v := by
  intro claims hclaims
  unfold rotated at hclaims
  split at hclaims
  · split at hclaims
    · rename_i c row hphase
      obtain ⟨k, hk, hphase⟩ := map_eq_some_iff.mp hphase
      rw [mem_singleton.mp hclaims]
      exact h row (.inr ⟨k, mem_of_getElem? hk, .inr hphase⟩)
    · cases hclaims
  · cases hclaims

theorem Login.Bound.refreshed {login next : Login}
    (h : login.Bound) (hstep : login.refresh config user act = some next) : next.Bound := by
  obtain ⟨family, hfamily, hstep⟩ := bind_eq_some_iff.mp hstep
  obtain ⟨after, hafter, rfl⟩ := map_eq_some_iff.mp hstep
  constructor
  · intro claims hclaims
    rcases mem_append.mp hclaims with hold | hnew
    · exact h.access claims hold
    · exact rotated_authVersion (h.refresh family hfamily) claims hnew
  · intro other hother row hrow
    cases hother
    exact holds_step hafter (h.refresh family hfamily) row hrow

theorem Login.Bound.dead {login : Login} (h : login.Bound)
    (hbehind : login.read.authVersion < user.authVersion) : login.Dead user := by
  constructor
  · intro claims hclaims machine
    have hclaim := h.access claims hclaims
    have hne : user.authVersion ≠ claims.authVersion := by omega
    unfold resolveJwtMachine
    split
    · rfl
    · split
      · rfl
      · split
        · rfl
        · simp [hne]
  · intro family hfamily row hrow machine
    have hrow := h.refresh family hfamily row hrow
    have hne : user.authVersion ≠ row.authVersion := by omega
    unfold sessionOwner
    split
    · rfl
    · split
      · rfl
      · split
        · rfl
        · simp [UserRow.owner, hne]

/-! ## The counter -/

/-- Whoever has read the row has read a counter that is not ahead. -/
structure Inv (s : State) : Prop where
  writers : ∀ writer ∈ s.writers, writer.read.authVersion ≤ s.user.authVersion
  logins : ∀ login ∈ s.logins, login.read.authVersion ≤ s.user.authVersion
  bound : ∀ login ∈ s.logins, login.Bound

theorem inv_start (user) : Inv (State.start user) :=
  ⟨by simp [State.start], by simp [State.start], by simp [State.start]⟩

variable {s t : State}

theorem Writer.commit_authVersion (writer : Writer) (user) :
    (writer.commit config user).authVersion =
      if writer.revokes config then writer.read.authVersion + 1 else user.authVersion := by
  unfold Writer.commit Writer.revokes
  by_cases happlies : writer.op.applies config.env writer.read = true
  · rw [if_pos happlies, happlies, Bool.and_true]
    by_cases hrevokes : writer.op.revokes = true
    · rw [if_pos hrevokes, flush_revoking hrevokes]
    · rw [if_neg hrevokes, flush_keeping (Bool.eq_false_of_not_eq_true hrevokes)]
  · rw [if_neg happlies, Bool.eq_false_of_not_eq_true happlies, Bool.and_false,
      if_neg Bool.false_ne_true]

theorem Writer.commit_le {writer : Writer}
    (hcurrent : writer.revokes config = true → writer.read.authVersion = user.authVersion) :
    user.authVersion ≤ (writer.commit config user).authVersion := by
  rw [Writer.commit_authVersion]
  split
  · rename_i hrevokes
    have := hcurrent hrevokes
    omega
  · exact le_rfl

/-- What a step does to the row, to the operations and to the logins. -/
inductive Fires (config : Config) (s : State) : Act → State → Prop where
  | begin {op} :
      Fires config s (.begin op) { s with writers := s.writers ++ [⟨op, s.user, false⟩] }
  | commit {w writer} (hw : s.writers[w]? = some writer) :
      Fires config s (.commit w) { s with
        user := writer.commit config s.user
        writers := s.writers.set w { writer with finished := true } }
  | refused {password} : Fires config s (.login password) s
  | login {password} :
      Fires config s (.login password) { s with logins := s.logins ++ [⟨s.user, false, [], none⟩] }
  | tokens {act l login next} (hact : ∀ w, act ≠ .commit w) (hl : s.logins[l]? = some login)
      (hread : next.read = login.read) (hbound : login.Bound → next.Bound) :
      Fires config s act { s with logins := s.logins.set l next }

theorem step_fires {act} (h : step config s act = some t) : Fires config s act t := by
  cases act with
  | begin op =>
    cases h
    exact .begin
  | commit w =>
    obtain ⟨writer, hw, h⟩ := bind_eq_some_iff.mp h
    split at h
    · cases h
    · cases h
      exact .commit hw
  | login password =>
    simp only [step] at h
    split at h <;> obtain rfl := some.inj h
    · exact .login
    · exact .refused
  | answer l machineId persistent now =>
    obtain ⟨login, hl, h⟩ := bind_eq_some_iff.mp h
    split at h
    · cases h
    · cases h
      have hbound := @Login.Bound.answer config login machineId persistent now
      exact .tokens nofun hl rfl fun _ => hbound
  | refresh l act =>
    obtain ⟨login, hl, h⟩ := bind_eq_some_iff.mp h
    obtain ⟨next, hnext, rfl⟩ := map_eq_some_iff.mp h
    refine .tokens nofun hl ?_ fun hbound => hbound.refreshed hnext
    obtain ⟨family, -, hstep⟩ := bind_eq_some_iff.mp hnext
    obtain ⟨after, -, rfl⟩ := map_eq_some_iff.mp hstep
    rfl

/-- The counter does not go back, and the logins stay. -/
structure Onward (s t : State) : Prop where
  counter : s.user.authVersion ≤ t.user.authVersion
  logins : ∀ (l : Nat) (login : Login), s.logins[l]? = some login →
    ∃ next, t.logins[l]? = some next ∧ next.read = login.read

theorem Onward.refl (s) : Onward s s := ⟨le_rfl, fun _ login h => ⟨login, h, rfl⟩⟩

theorem Onward.trans {u} (h : Onward s t) (h' : Onward t u) : Onward s u := by
  refine ⟨h.counter.trans h'.counter, fun l login hl => ?_⟩
  obtain ⟨next, hnext, hread⟩ := h.logins l login hl
  obtain ⟨last, hlast, hread'⟩ := h'.logins l next hnext
  exact ⟨last, hlast, hread'.trans hread⟩

theorem Onward.of_step {act} (hcurrent : Current config s act)
    (h : step config s act = some t) : Onward s t := by
  cases step_fires h with
  | begin => exact ⟨le_rfl, fun _ login h => ⟨login, h, rfl⟩⟩
  | commit hw => exact ⟨Writer.commit_le (hcurrent _ hw), fun _ login h => ⟨login, h, rfl⟩⟩
  | refused => exact .refl s
  | login =>
    refine ⟨le_rfl, fun l login h => ⟨login, ?_, rfl⟩⟩
    rw [List.getElem?_append_left (List.getElem?_eq_some_iff.mp h).1, h]
  | @tokens _ l login next _ hl hread _ =>
    refine ⟨le_rfl, fun i other h => ?_⟩
    by_cases heq : l = i
    · subst heq
      obtain rfl := some.inj (hl.symm.trans h)
      exact ⟨next, List.getElem?_set_self (List.getElem?_eq_some_iff.mp h).1, hread⟩
    · exact ⟨other, by simpa [List.getElem?_set_ne heq] using h, rfl⟩

theorem Inv.step {act} (hinv : Inv s) (hcurrent : Current config s act)
    (h : step config s act = some t) : Inv t := by
  cases step_fires h with
  | begin =>
    refine ⟨?_, hinv.logins, hinv.bound⟩
    intro writer hwriter
    rcases mem_append.mp hwriter with hold | hnew
    · exact hinv.writers writer hold
    · rw [mem_singleton.mp hnew]
  | @commit w writer hw =>
    have hle := Writer.commit_le (hcurrent writer hw)
    refine ⟨?_, fun login hlogin => (hinv.logins login hlogin).trans hle, hinv.bound⟩
    intro other hother
    rcases mem_or_eq_of_mem_set hother with hold | rfl
    · exact (hinv.writers other hold).trans hle
    · exact (hinv.writers writer (mem_of_getElem? hw)).trans hle
  | refused => exact hinv
  | login =>
    refine ⟨hinv.writers, ?_, ?_⟩
    · intro login hlogin
      rcases mem_append.mp hlogin with hold | hnew
      · exact hinv.logins login hold
      · rw [mem_singleton.mp hnew]
    · intro login hlogin
      rcases mem_append.mp hlogin with hold | hnew
      · exact hinv.bound login hold
      · rw [mem_singleton.mp hnew]
        exact ⟨nofun, nofun⟩
  | @tokens _ l login next _ hl hread hbound =>
    refine ⟨hinv.writers, ?_, ?_⟩
    · intro other hother
      rcases mem_or_eq_of_mem_set hother with hold | rfl
      · exact hinv.logins other hold
      · rw [hread]
        exact hinv.logins login (mem_of_getElem? hl)
    · intro other hother
      rcases mem_or_eq_of_mem_set hother with hold | rfl
      · exact hinv.bound other hold
      · exact hbound (hinv.bound login (mem_of_getElem? hl))

theorem step_revoking {w writer} (hw : s.writers[w]? = some writer)
    (hrevokes : writer.revokes config = true) (h : step config s (.commit w) = some t) :
    t.user.authVersion = writer.read.authVersion + 1 ∧ t.logins = s.logins := by
  cases step_fires h with
  | commit hw' =>
    obtain rfl := some.inj (hw.symm.trans hw')
    refine ⟨?_, rfl⟩
    show (writer.commit config s.user).authVersion = _
    rw [Writer.commit_authVersion, if_pos hrevokes]
  | tokens hact _ _ _ => exact absurd rfl (hact w)

theorem run_onward {acts} (hrun : Run (step config) (Current config) s acts t) : Onward s t := by
  induction hrun with
  | nil s => exact .refl s
  | cons hcurrent hstep _ ih => exact (Onward.of_step hcurrent hstep).trans ih

/-- **A revocation kills every earlier session.** In a run whose revocations commit on the counter
they have read, each moves it up, it never comes back, and no token of a login that had read the row
before is accepted from there on. Another revocation does not move it up. -/
theorem sessions_die (config : Config) (user : UserRow) :
    ∀ acts s w writer t, Run (step config) (Current config) (State.start user) acts s →
      s.writers[w]? = some writer → writer.revokes config = true →
      step config s (.commit w) = some t →
      (s.user.authVersion < t.user.authVersion ↔ Current config s (.commit w)) ∧
        (Current config s (.commit w) → ∀ acts' u, Run (step config) (Current config) t acts' u →
            t.user.authVersion ≤ u.user.authVersion ∧
              ∀ l < s.logins.length, ∀ login, u.logins[l]? = some login → login.Dead u.user) := by
  intro acts s w writer t hrun hw hrevokes hcommit
  have hinv : Inv s := hrun.invariant Inv.step (inv_start user)
  have hread := hinv.writers writer (mem_of_getElem? hw)
  obtain ⟨hcounter, hlogins⟩ := step_revoking hw hrevokes hcommit
  have hcurrent : Current config s (.commit w) ↔
      writer.read.authVersion = s.user.authVersion := by
    constructor
    · intro h
      exact h writer hw hrevokes
    · intro h other hother _
      obtain rfl := some.inj (hw.symm.trans hother)
      exact h
  refine ⟨by rw [hcurrent]; omega, ?_⟩
  intro hnow acts' u hrun'
  have honward := run_onward hrun'
  refine ⟨honward.counter, ?_⟩
  intro l hl login hlogin
  have hinv' : Inv u := hrun'.invariant Inv.step (hinv.step hnow hcommit)
  -- the login had read the row before the commit
  obtain ⟨next, hnext, hsame⟩ := honward.logins l s.logins[l] (by rw [hlogins]; simp [hl])
  obtain rfl := some.inj (hlogin.symm.trans hnext)
  refine (hinv'.bound login (mem_of_getElem? hlogin)).dead ?_
  have hbefore := hinv.logins s.logins[l] (getElem_mem hl)
  have hsteady := honward.counter
  rw [hcurrent] at hnow
  rw [hsame]
  omega

/-- An account with a password, and a client that knows it. -/
def account : UserRow := ⟨"ada", some "hash", 0, none, some 0, 1⟩

def studio : Config := ⟨⟨fun password hash => password = "secret" ∧ hash = "hash"⟩, ⟨7, 30⟩, ⟨"u"⟩⟩

/-- A login with both tokens, and a revocation that has read the row. -/
def revokedRun : List Act :=
  [.login "secret", .answer 0 ⟨"m"⟩ true 0, .begin .revokeSessionsOf]

theorem sessions_die_revoked :
    ∃ s t, Run (step studio) (Current studio) (State.start account) revokedRun s ∧
      step studio s (.commit 0) = some t ∧ t.user.authVersion = 1 ∧
      ∀ l < s.logins.length, ∀ login, t.logins[l]? = some login → login.Dead t.user := by
  have h : (execWithin (step studio) (Current studio) (State.start account) revokedRun).any
      (fun s => decide (s.writers[0]? = some ⟨.revokeSessionsOf, account, false⟩) &&
        decide (s.user = account) &&
        (step studio s (.commit 0)).any fun t => t.user.authVersion = 1) = true := by
    decide +kernel
  obtain ⟨s, hs, hok⟩ := Run.of_any h
  simp only [Bool.and_eq_true, decide_eq_true_eq] at hok
  obtain ⟨⟨hw, huser⟩, hok⟩ := hok
  obtain ⟨t, hcommit, hone⟩ := (Option.any_eq_true _ _).mp hok
  have hcurrent : Current studio s (.commit 0) := by
    intro writer hwriter _
    obtain rfl := some.inj (hw.symm.trans hwriter)
    rw [huser]
  exact ⟨s, t, hs, hcommit, of_decide_eq_true hone,
    ((sessions_die studio account _ s 0 _ t hs hw rfl hcommit).2 hcurrent [] t (.nil t)).2⟩

/-- A revocation and a change of the password read the row; the revocation
commits, and whoever knows the old password logs in. -/
def overtakenRun : List Act :=
  [.begin .revokeSessionsOf, .begin (.changePassword "secret" "other"), .commit 0,
    .login "secret", .answer 0 ⟨"m"⟩ false 0]

theorem session_outlives_revocation :
    ¬ ∀ config user acts s w writer t, Run (step config) Free (State.start user) acts s →
      s.writers[w]? = some writer → writer.revokes config = true →
      step config s (.commit w) = some t → ∀ acts' u, Run (step config) Free t acts' u →
        ∀ l < s.logins.length, ∀ login, u.logins[l]? = some login → login.Dead u.user := by
  intro hclaim
  have h : (execWithin (step studio) Free (State.start account) overtakenRun).any
      (fun s => decide (s.writers[1]? = some ⟨.changePassword "secret" "other", account, false⟩) &&
        decide (0 < s.logins.length) &&
        (step studio s (.commit 1)).any fun t => (t.logins[0]?).any fun login =>
          login.access.any (resolveJwtMachine (some ⟨some ⟨"u"⟩, none⟩) (some t.user))) = true := by
    decide +kernel
  obtain ⟨s, hs, hok⟩ := Run.of_any h
  simp only [Bool.and_eq_true, decide_eq_true_eq] at hok
  obtain ⟨⟨hw, hl⟩, hok⟩ := hok
  obtain ⟨t, hcommit, hok⟩ := (Option.any_eq_true _ _).mp hok
  obtain ⟨login, hlogin, hok⟩ := (Option.any_eq_true _ _).mp hok
  obtain ⟨claims, hclaims, haccepted⟩ := List.any_eq_true.mp hok
  have hdead := hclaim studio account _ s 1 _ t hs hw rfl hcommit [] t (.nil t)
    0 hl login hlogin
  rw [hdead.access claims hclaims] at haccepted
  cases haccepted

end StudioOS.Accounts
