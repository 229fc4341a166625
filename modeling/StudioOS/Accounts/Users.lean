import StudioOS.RefreshTokens.Model

/-!
# Users — the row of an account and the operations on it

The operations of `services/provisioning.py` and `services/accounts.py` on one
account, each as what it checks in the row it has read and what it then sets.
-/

namespace StudioOS.Accounts

structure UserRow where
  displayName : String
  passwordHash : Option String
  authVersion : Int
  disabledAt : Option Int
  emailVerifiedAt : Option Int
  version : Int
deriving DecidableEq

inductive AccountStatus where
  | disabled
  | pending
  | active
deriving DecidableEq

def UserRow.isActive (user : UserRow) : Bool :=
  user.disabledAt.isNone && user.emailVerifiedAt.isSome

def UserRow.status (user : UserRow) : AccountStatus :=
  if user.disabledAt.isSome then .disabled
  else if user.emailVerifiedAt.isNone then .pending
  else .active

/-- The row after the UPDATE of a transaction that has read `read` and made
`new` of it. -/
def UserRow.flush (read new current : UserRow) : UserRow :=
  { displayName := flushed read.displayName new.displayName current.displayName
    passwordHash := flushed read.passwordHash new.passwordHash current.passwordHash
    authVersion := flushed read.authVersion new.authVersion current.authVersion
    disabledAt := flushed read.disabledAt new.disabledAt current.disabledAt
    emailVerifiedAt := flushed read.emailVerifiedAt new.emailVerifiedAt current.emailVerifiedAt
    version := flushed read.version new.version current.version }

/-- `bcrypt.checkpw`. -/
structure Env where
  checkPassword : String → String → Bool

def revokeSessionsInPlace (user : UserRow) : UserRow :=
  { user with authVersion := user.authVersion + 1, version := user.version + 1 }

def applyNewPassword (user : UserRow) (passwordHash : String) : UserRow :=
  revokeSessionsInPlace { user with passwordHash := some passwordHash }

/-- `verify_user_password`, on the row it has read. -/
def verifyUserPassword (env : Env) (user : UserRow) (password : String) : Bool :=
  user.passwordHash.any (env.checkPassword password) && user.isActive

/-- The operations on an account that has sessions; the reset is one whose
secret is consumed. -/
inductive Op where
  | revokeSessionsOf
  | disableAccount (now : Int)
  | enableAccount
  | changePassword (currentPassword passwordHash : String)
  | resetPassword (passwordHash : String) (now : Int)
deriving DecidableEq

/-- What an operation checks in the row; otherwise it commits nothing. -/
def Op.applies (env : Env) (user : UserRow) : Op → Bool
  | .revokeSessionsOf => true
  | .disableAccount _ => user.disabledAt.isNone
  | .enableAccount => user.disabledAt.isSome
  | .changePassword currentPassword _ =>
    user.passwordHash.any (env.checkPassword currentPassword)
  | .resetPassword .. => user.status ≠ .disabled

def Op.write (user : UserRow) : Op → UserRow
  | .revokeSessionsOf => revokeSessionsInPlace user
  | .disableAccount now => revokeSessionsInPlace { user with disabledAt := some now }
  | .enableAccount => { user with disabledAt := none, version := user.version + 1 }
  | .changePassword _ passwordHash => applyNewPassword user passwordHash
  | .resetPassword passwordHash now =>
    let user := applyNewPassword user passwordHash
    if user.emailVerifiedAt.isNone then { user with emailVerifiedAt := some now } else user

/-- Whether an operation revokes the sessions. -/
def Op.revokes : Op → Bool
  | .enableAccount => false
  | _ => true

theorem Op.write_authVersion (user) (op : Op) :
    (op.write user).authVersion = user.authVersion + if op.revokes then 1 else 0 := by
  cases op with
  | resetPassword passwordHash now =>
    simp only [Op.write]
    split <;> rfl
  | enableAccount => exact (Int.add_zero _).symm
  | _ => rfl

theorem flush_revoking {op : Op} (h : op.revokes = true) (read current : UserRow) :
    (UserRow.flush read (op.write read) current).authVersion = read.authVersion + 1 := by
  have hwrite := Op.write_authVersion read op
  rw [if_pos h] at hwrite
  show flushed read.authVersion (op.write read).authVersion current.authVersion = _
  rw [hwrite]
  exact flushed_of_ne (by omega) _

theorem flush_keeping {op : Op} (h : op.revokes = false) (read current : UserRow) :
    (UserRow.flush read (op.write read) current).authVersion = current.authVersion := by
  have hwrite := Op.write_authVersion read op
  rw [h, if_neg Bool.false_ne_true, Int.add_zero] at hwrite
  show flushed read.authVersion (op.write read).authVersion current.authVersion = _
  rw [hwrite, flushed_self]

end StudioOS.Accounts
