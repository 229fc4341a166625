import StudioOS.Library.Runs
import StudioOS.Accounts.Users

/-!
# Secrets — the secrets of one account under READ COMMITTED

`services/accounts.py` and `disable_account` on one address, statement by statement. A statement
sees what was committed when it started and its own writes; an UPDATE locks every row it writes
until its transaction ends, waits for a locked one, and then asks its condition again.
-/

namespace StudioOS.Accounts.Secrets

inductive Purpose where
  | emailVerification
  | passwordReset
deriving DecidableEq

/-- A row of `account_tokens`. -/
structure Token where
  purpose : Purpose
  createdAt : Int
  expiresAt : Int
  consumedAt : Option Int
  /-- How many entries the log had when the call began that issued it. -/
  began : Nat
deriving DecidableEq

structure Settings where
  emailVerificationTtl : Int
  passwordResetTtl : Int
  accountEmailCooldown : Int

def Settings.ttl (settings : Settings) : Purpose → Int
  | .emailVerification => settings.emailVerificationTtl
  | .passwordReset => settings.passwordResetTtl

/-- The condition that `_consume` and `_expire_outstanding` share. -/
def Token.outstanding (token : Token) (now : Int) : Bool :=
  token.consumedAt.isNone && now < token.expiresAt

inductive Op where
  | register (localPart : String)
  | resendVerification
  | forgotPassword
  | verifyEmail (secret : Nat) (passwordHash displayName : String)
  | resetPassword (secret : Nat) (passwordHash : String)
  | disableAccount
deriving DecidableEq

/-- The purpose of the secret that an operation issues or consumes. -/
def Op.purpose : Op → Option Purpose
  | .register _ | .resendVerification | .verifyEmail .. => some .emailVerification
  | .forgotPassword | .resetPassword .. => some .passwordReset
  | .disableAccount => none

def Op.secret : Op → Option Nat
  | .verifyEmail secret _ _ | .resetPassword secret _ => some secret
  | _ => none

/-- What the status of the user has to be. -/
def Purpose.permits (user : UserRow) : Purpose → Bool
  | .emailVerification => user.status = .pending
  | .passwordReset => user.status ≠ .disabled

def Op.permits (user : UserRow) (op : Op) : Bool :=
  match op.purpose with
  | some purpose => purpose.permits user
  | none => user.disabledAt.isNone

/-- The user that `register` creates. -/
def newUser (localPart : String) : UserRow :=
  { displayName := localPart
    passwordHash := none
    authVersion := 0
    disabledAt := none
    emailVerifiedAt := none
    version := 1 }

/-- What a consumer or `disable_account` makes of the row that it has read. -/
def Op.write (read : UserRow) (now : Int) : Op → UserRow
  | .verifyEmail _ passwordHash displayName =>
    { read with
      emailVerifiedAt := some now
      passwordHash := some passwordHash
      displayName := displayName
      version := read.version + 1 }
  | .resetPassword _ passwordHash => Accounts.Op.write read (.resetPassword passwordHash now)
  | .disableAccount => Accounts.Op.write read (.disableAccount now)
  | _ => read

/-- The purposes whose outstanding secrets it then expires, a statement each;
`none` stands for all. -/
def Op.scopes (read : UserRow) : Op → List (Option Purpose)
  | .verifyEmail .. => [some .emailVerification]
  | .resetPassword .. =>
    if read.emailVerifiedAt.isNone then [some .emailVerification, some .passwordReset]
    else [some .passwordReset]
  | .disableAccount => [none]
  | _ => []

/-! ## Calls -/

/-- What a call commits beside the rows of the secrets it has written. -/
inductive Work where
  /-- A new secret. -/
  | issue (purpose : Purpose) (now : Int)
  /-- The columns in which `new` differs from `read`. -/
  | write (read new : UserRow) (now : Int)
deriving DecidableEq

def Work.now : Work → Int
  | .issue _ now => now
  | .write _ _ now => now

/-- Where a call stands. -/
inductive Phase where
  | start
  /-- `register` has found no user; before the INSERT. -/
  | absent
  | inserted
  /-- `_issue` for the inserted user: no secret of it can be there. -/
  | creating (now : Int)
  /-- The user is one that `_issue` is called for. -/
  | issuer
  /-- Before the SELECT of the latest secret. -/
  | latest (now : Int)
  /-- A consumer has read the clock. -/
  | timed (now : Int)
  /-- The secret is consumed; before the user is read. -/
  | consumed
  | checked (read : UserRow)
  /-- Before the UPDATE of the user. -/
  | ready (read : UserRow) (now : Int)
  /-- Before the UPDATE of the outstanding secrets of the first scope. -/
  | updating (work : Work) (scopes : List (Option Purpose))
  /-- In that UPDATE: the rows of its snapshot that it has not come to. -/
  | expiring (work : Work) (scope : Option Purpose) (scopes : List (Option Purpose)) (now : Int)
      (todo : List Nat)
  | done
deriving DecidableEq

structure Call where
  op : Op
  /-- How many entries the log had when the call began. -/
  began : Nat
  /-- How many it had when the call read the clock for the secret it consumes. -/
  timed : Nat
  phase : Phase
  /-- The rows that the transaction has written. -/
  writes : List (Nat × Token)

def Work.isWrite : Work → Bool
  | .issue .. => false
  | .write .. => true

/-- The transaction has the row of the user locked. -/
def Call.locksUser (call : Call) : Bool :=
  match call.phase with
  | .updating work _ => work.isWrite
  | .expiring work _ _ _ _ => work.isWrite
  | _ => false

/-- The transaction has inserted the address. -/
def Call.locksAddress (call : Call) : Bool :=
  match call.phase with
  | .inserted => true
  | .creating _ => true
  | _ => false

def Call.locks (call : Call) (place : Nat) : Bool := call.writes.any (·.1 = place)

/-- What takes effect on the account. -/
inductive Entry where
  | accepted (secret : Nat) (purpose : Purpose)
  | disabled
deriving DecidableEq

/-- The committed rows, the clock, the calls and the log of the effects. -/
structure State where
  user : Option UserRow
  tokens : List Token
  clock : Int
  calls : List Call
  log : List Entry

def State.start (clock : Int) : State :=
  { user := none, tokens := [], clock := clock, calls := [], log := [] }

inductive Act where
  | tick (d : Nat)
  | begin (op : Op)
  /-- A call reads the row of the user. -/
  | readUser (c : Nat)
  | insertUser (c : Nat)
  | readClock (c : Nat)
  | selectLatest (c : Nat)
  | consume (c : Nat)
  | updateUser (c : Nat)
  /-- The UPDATE of outstanding secrets starts, with a clock reading `now`. -/
  | startUpdate (c : Nat) (now : Int)
  /-- It comes to a row. -/
  | updateRow (c : Nat) (place : Nat)
  | commit (c : Nat)
  /-- The transaction is rolled back. -/
  | abort (c : Nat)

def State.put (s : State) (c : Nat) (call : Call) : State :=
  { s with calls := s.calls.set c call }

def Call.go (call : Call) (phase : Phase) : Call := { call with phase := phase }

/-- The end of a transaction. -/
def Call.finish (call : Call) : Call := { call with phase := .done, writes := [] }

/-- Another transaction has locked the row. -/
def State.isLocked (s : State) (c : Nat) (place : Nat) : Bool :=
  s.calls.zipIdx.any fun entry => entry.2 ≠ c && entry.1.locks place

def State.userLocked (s : State) (c : Nat) : Bool :=
  s.calls.zipIdx.any fun entry => entry.2 ≠ c && entry.1.locksUser

def State.addressLocked (s : State) (c : Nat) : Bool :=
  s.calls.zipIdx.any fun entry => entry.2 ≠ c && entry.1.locksAddress

/-- A row as the transaction sees it. -/
def State.seen (s : State) (call : Call) (place : Nat) : Option Token :=
  ((call.writes.find? (·.1 = place)).map Prod.snd).or s.tokens[place]?

def inScope (scope : Option Purpose) (token : Token) : Bool :=
  scope.all (token.purpose = ·)

/-- The rows that an UPDATE of outstanding secrets finds. -/
def State.snapshot (s : State) (call : Call) (scope : Option Purpose) (now : Int) : List Nat :=
  (List.range s.tokens.length).filter fun place =>
    (s.seen call place).any fun token => inScope scope token && token.outstanding now

/-- The table after the commit of `writes`. -/
def applyWrites (tokens : List Token) (writes : List (Nat × Token)) : List Token :=
  tokens.mapIdx fun place token => ((writes.find? (·.1 = place)).map Prod.snd).getD token

/-- `_issue`: the cooldown since the latest secret. -/
def coolingDown (settings : Settings) (tokens : List Token) (purpose : Purpose) (now : Int) :
    Bool :=
  match ((tokens.filter (·.purpose = purpose)).map Token.createdAt).max? with
  | none => false
  | some latest => now - latest < settings.accountEmailCooldown

def newToken (settings : Settings) (purpose : Purpose) (now : Int) (began : Nat) : Token :=
  { purpose := purpose
    createdAt := now
    expiresAt := now + settings.ttl purpose
    consumedAt := none
    began := began }

/-- What the SELECT of the user leads to. -/
def afterRead (call : Call) (user : Option UserRow) : Call :=
  match call.op, user with
  | .register _, none => call.go .absent
  | _, none => call.finish
  | op, some user =>
    if op.permits user then
      if op.secret.isSome ∨ op = .disableAccount then call.go (.checked user)
      else call.go .issuer
    else call.finish

/-- Whether a call reads the user next. -/
def Call.readsUser (call : Call) : Bool :=
  match call.phase with
  | .start => call.op.secret.isNone
  | .consumed => true
  | _ => false

/-- What a reading of the clock leads to, the log having `length` entries. -/
def afterClock (call : Call) (now : Int) (length : Nat) : Option Call :=
  match call.phase with
  | .start =>
    if call.op.secret.isSome then some { call.go (.timed now) with timed := length } else none
  | .inserted => some (call.go (.creating now))
  | .issuer => some (call.go (.latest now))
  | .checked read => some (call.go (.ready read now))
  | _ => none

/-- The UPDATE of outstanding secrets that comes next. -/
def Phase.next : Phase → Option (Work × Option Purpose × List (Option Purpose))
  | .updating work (scope :: scopes) => some (work, scope, scopes)
  | .expiring work _ (scope :: scopes) _ [] => some (work, scope, scopes)
  | _ => none

/-- The effect that the commit of a consumer or of `disable_account` has. -/
def Op.entry (op : Op) : Entry :=
  match op.secret, op.purpose with
  | some secret, some purpose => .accepted secret purpose
  | _, _ => .disabled

def State.consume (s : State) (c : Nat) (call : Call) (now : Int) : Option State :=
  match call.op.secret.bind fun secret => s.tokens[secret]?.map (Prod.mk secret) with
  | none => some (s.put c call.finish)
  | some (secret, token) =>
    if call.op.purpose = some token.purpose ∧ token.outstanding now then
      -- a row that another transaction writes is waited for
      if s.isLocked c secret then none
      else
        some (s.put c { call.go .consumed with
          writes := [(secret, { token with consumedAt := some now })] })
    else some (s.put c call.finish)

def State.updateRow (s : State) (c : Nat) (call : Call) (place : Nat) (work : Work)
    (scope : Option Purpose) (scopes : List (Option Purpose)) (now : Int) (todo : List Nat) :
    Option State :=
  if place ∈ todo then
    if s.isLocked c place then none
    else
      let call := call.go (.expiring work scope scopes now (todo.erase place))
      match s.seen call place with
      | none => some (s.put c call)
      | some token =>
        if inScope scope token && token.outstanding now then
          some (s.put c { call with
            writes := (place, { token with expiresAt := now }) :: call.writes })
        else some (s.put c call)
  else none

def State.commit (settings : Settings) (s : State) (c : Nat) (call : Call) : Work → State
  | .issue purpose now =>
    { s.put c call.finish with
      tokens := applyWrites s.tokens call.writes ++
        [newToken settings purpose now call.began] }
  | .write read new _ =>
    { s.put c call.finish with
      user := s.user.map (UserRow.flush read new)
      tokens := applyWrites s.tokens call.writes
      log := s.log ++ [call.op.entry] }

def step (settings : Settings) (s : State) : Act → Option State
  | .tick d => some { s with clock := s.clock + d }
  | .begin op =>
    some { s with calls := s.calls ++ [⟨op, s.log.length, s.log.length, .start, []⟩] }
  | .readUser c =>
    match s.calls[c]? with
    | some call => if call.readsUser then some (s.put c (afterRead call s.user)) else none
    | none => none
  | .insertUser c =>
    match s.calls[c]? with
    | some call =>
      if call.phase = .absent then
        if s.user.isSome then some (s.put c call.finish)
        -- the address is waited for while another transaction has inserted it
        else if s.addressLocked c then none
        else some (s.put c (call.go .inserted))
      else none
    | none => none
  | .readClock c =>
    match s.calls[c]? with
    | some call =>
      (afterClock call s.clock s.log.length).map (s.put c)
    | none => none
  | .selectLatest c =>
    match s.calls[c]? with
    | some call =>
      match call.phase, call.op.purpose with
      | .latest now, some purpose =>
        if coolingDown settings s.tokens purpose now then some (s.put c call.finish)
        else some (s.put c (call.go (.updating (.issue purpose now) [some purpose])))
      | _, _ => none
    | none => none
  | .consume c =>
    match s.calls[c]? with
    | some call =>
      match call.phase with
      | .timed now => s.consume c call now
      | _ => none
    | none => none
  | .updateUser c =>
    match s.calls[c]? with
    | some call =>
      match call.phase with
      | .ready read now =>
        if s.userLocked c then none
        else
          some (s.put c (call.go
            (.updating (.write read (call.op.write read now) now) (call.op.scopes read))))
      | _ => none
    | none => none
  | .startUpdate c now =>
    match s.calls[c]? with
    | some call =>
      match call.phase.next with
      | some (work, scope, scopes) =>
        -- `disable_account` has read the clock once
        if work.now ≤ now ∧ now ≤ s.clock ∧ (scope = none → now = work.now) then
          some (s.put c (call.go (.expiring work scope scopes now (s.snapshot call scope now))))
        else none
      | _ => none
    | none => none
  | .updateRow c place =>
    match s.calls[c]? with
    | some call =>
      match call.phase with
      | .expiring work scope scopes now todo =>
        s.updateRow c call place work scope scopes now todo
      | _ => none
    | none => none
  | .commit c =>
    match s.calls[c]? with
    | some call =>
      match call.phase with
      | .creating now =>
        match call.op with
        | .register localPart =>
          some { s.put c call.finish with
            user := some (newUser localPart)
            tokens := s.tokens ++
              [newToken settings .emailVerification now call.began] }
        | _ => none
      | .expiring work _ [] _ [] => some (s.commit settings c call work)
      | _ => none
    | none => none
  | .abort c =>
    match s.calls[c]? with
    | some call => some (s.put c call.finish)
    | none => none

/-- The secret would be accepted now. -/
def State.acceptable (s : State) (token : Token) : Bool :=
  token.outstanding s.clock && s.user.any (token.purpose.permits ·)

/-- Every acceptable secret of the purpose is one that the call has written. -/
def State.expiresAll (s : State) (call : Call) (purpose : Purpose) : Bool :=
  s.tokens.zipIdx.all fun entry =>
    !s.acceptable entry.1 || entry.1.purpose ≠ purpose || call.locks entry.2

/-- After the entry no secret of the purpose that was issued before is to be accepted. -/
def Entry.closes (purpose : Purpose) : Entry → Bool
  | .accepted _ other => other = purpose
  | .disabled => true

def Entry.isReset : Entry → Bool
  | .accepted _ .passwordReset => true
  | _ => false

/-- A new secret that is acceptable is committed when the others of its purpose
expire with it. -/
def Call.replacesAll (settings : Settings) (s : State) (call : Call) : Bool :=
  match call.phase with
  | .expiring (.issue purpose now) .. =>
    !s.acceptable (newToken settings purpose now call.began) || s.expiresAll call purpose
  | _ => true

/-- Nothing that closes the purpose has been since the call read the clock and
since the one began that issued its secret. -/
def State.isOpen (s : State) (call : Call) (secret : Nat) (purpose : Purpose) : Bool :=
  s.tokens[secret]?.all fun token =>
    (s.log.drop (max call.timed token.began)).all fun entry => !entry.closes purpose

/-- A new secret for a reset is committed when no reset has been since the call
began or no password can be reset; a consumer commits when its purpose has not
been closed since, and a reset when it expires all others. -/
def Call.inTime (s : State) (call : Call) : Bool :=
  match call.phase with
  | .expiring (.issue .passwordReset _) .. =>
    !s.user.any (Purpose.passwordReset.permits ·) ||
      (s.log.drop call.began).all fun entry => !entry.isReset
  | .expiring (.write ..) .. =>
    match call.op.secret, call.op.purpose with
    | some secret, some purpose =>
      s.isOpen call secret purpose &&
        (purpose = .emailVerification || s.expiresAll call .passwordReset)
    | _, _ => true
  | _ => true

/-- A consumer commits when the account has not been disabled since it read the clock. -/
def Call.isEnabled (s : State) (call : Call) : Bool :=
  match call.phase with
  | .expiring (.write ..) .. =>
    call.op.secret.isNone || .disabled ∉ s.log.drop call.timed
  | _ => true

/-- A condition on the calls that commit. -/
def AtCommit (P : State → Call → Bool) (s : State) : Act → Prop
  | .commit c => ∀ call ∈ s.calls[c]?, P s call = true
  | _ => True

instance (P : State → Call → Bool) (s : State) (act : Act) : Decidable (AtCommit P s act) :=
  match act with
  | .commit c => inferInstanceAs (Decidable (∀ call ∈ s.calls[c]?, P s call = true))
  | .tick _ | .begin _ | .readUser _ | .insertUser _ | .readClock _ | .selectLatest _ | .consume _
  | .updateUser _ | .startUpdate .. | .updateRow .. | .abort _ => .isTrue trivial

def Entry.secret : Entry → Option Nat
  | .accepted secret _ => some secret
  | .disabled => none

/-- Each secret is accepted at most once. -/
def State.AcceptedOnce (s : State) : Prop := (s.log.filterMap Entry.secret).Nodup

/-- No two secrets of one purpose are acceptable. -/
def State.OneAcceptable (s : State) : Prop :=
  ∀ (i j : Nat) (a b : Token), s.tokens[i]? = some a → s.tokens[j]? = some b →
    s.acceptable a = true → s.acceptable b = true → a.purpose = b.purpose → i = j

/-- A secret that is accepted after an entry that closes its purpose was issued
by a call that began after that entry. -/
def State.ClosedFor (s : State) : Prop :=
  ∀ (m n : Nat) (entry : Entry) (secret : Nat) (purpose : Purpose) (token : Token), m < n →
    s.log[m]? = some entry → s.log[n]? = some (.accepted secret purpose) →
      s.tokens[secret]? = some token → entry.closes purpose = true → m < token.began

/-- Nothing is accepted once the account is disabled. -/
def State.StaysDisabled (s : State) : Prop :=
  ∀ (m n secret : Nat) (purpose : Purpose), m < n → s.log[m]? = some Entry.disabled →
    s.log[n]? ≠ some (Entry.accepted secret purpose)

end StudioOS.Accounts.Secrets
