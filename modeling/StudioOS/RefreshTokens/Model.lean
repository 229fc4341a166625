import StudioOS.Authz

/-!
# Model — one family of refresh tokens under READ COMMITTED

`services/refresh_tokens.py`, statement by statement: `rotate` and `revoke` are transactions on the
rows of one family. A statement sees what was committed when it started and its own writes; an
UPDATE goes through the rows of its snapshot in any order, locks each until its transaction ends,
waits for a locked one, and then asks its condition again.
-/

namespace StudioOS.RefreshTokens

abbrev TokenId := Nat

structure TokenRow where
  id : TokenId
  userId : Uuid
  machineId : Uuid
  authVersion : Int
  expiresAt : Int
  absoluteExpiresAt : Int
  consumedAt : Option Int
  revokedAt : Option Int
deriving DecidableEq

/-- The condition of the UPDATE that consumes a token. -/
def TokenRow.consumable (row : TokenRow) (now : Int) : Bool :=
  row.consumedAt = none && row.revokedAt = none && now < row.expiresAt

structure MachineRow where
  ownerUserId : Option Uuid
  credentialRevokedAt : Option Int

structure UserRow where
  isActive : Bool
  authVersion : Int

/-- `_session_owner`, on the rows it reads. -/
def sessionOwner (machine : Option MachineRow) (user : Option UserRow) (row : TokenRow) : Bool :=
  match machine with
  | none => false
  | some machine =>
    if machine.credentialRevokedAt.isSome then false
    else if machine.ownerUserId ≠ some row.userId then false
    else
      match user with
      | none => false
      | some user => user.isActive && user.authVersion = row.authVersion

/-- `refresh_token_sliding_days` and `refresh_token_absolute_days`, as durations. -/
structure Settings where
  sliding : Int
  absolute : Int

def slidingExpiry (now absolute : Int) (settings : Settings) : Int :=
  min (now + settings.sliding) absolute

/-- `_new_row`, for the owner of a row of the family. -/
def newRow (settings : Settings) (id : TokenId) (now : Int) (userId machineId : Uuid)
    (authVersion absoluteExpiresAt : Int) : TokenRow :=
  { id := id
    userId := userId
    machineId := machineId
    authVersion := authVersion
    expiresAt := slidingExpiry now absoluteExpiresAt settings
    absoluteExpiresAt := absoluteExpiresAt
    consumedAt := none
    revokedAt := none }

/-! ## Transactions -/

inductive Op where
  | rotate
  | revoke
deriving DecidableEq

/-- Why a family is revoked. -/
inductive Cause where
  | reused
  | logout
  | ownerGone
deriving DecidableEq

/-- Where a transaction stands. -/
inductive Phase where
  /-- Before the first statement. -/
  | start
  /-- The token is consumed; before `_session_owner`. -/
  | consumed (row : TokenRow)
  /-- The successor is added; before the commit. -/
  | issuing (row : TokenRow)
  /-- No row was consumed; before the SELECT of `_refuse_unconsumable`. -/
  | unconsumable
  /-- Before the family UPDATE. -/
  | condemned (cause : Cause)
  /-- In the family UPDATE: the rows of its snapshot it has not come to. -/
  | revoking (cause : Cause) (todo : List TokenId)
  | done
deriving DecidableEq

structure Caller where
  op : Op
  secret : TokenId
  now : Int
  phase : Phase
  /-- What the transaction has written. -/
  consumedId : Option TokenId
  revoked : List TokenId
deriving DecidableEq

/-- The rows of the family, the row locks and the transactions. -/
structure State where
  tokens : List TokenRow
  nextId : TokenId
  locks : TokenId → Option Nat
  callers : List Caller

/-- A family is issued at login: `issue` and its commit. -/
def State.issued (settings : Settings) (now : Int) (userId machineId : Uuid)
    (authVersion : Int) : State :=
  { tokens := [newRow settings 0 now userId machineId authVersion (now + settings.absolute)]
    nextId := 1
    locks := fun _ => none
    callers := [] }

inductive Act where
  | begin (op : Op) (secret : TokenId) (now : Int)
  /-- The next statement of a caller. -/
  | statement (c : Nat)
  /-- `_session_owner` reads these rows. -/
  | owner (c : Nat) (machine : Option MachineRow) (user : Option UserRow)
  /-- The family UPDATE comes to a row. -/
  | revokeRow (c : Nat) (id : TokenId)
  | commit (c : Nat)
  /-- The transaction is rolled back. -/
  | abort (c : Nat)

def State.row (s : State) (id : TokenId) : Option TokenRow := s.tokens.find? (·.id = id)

def State.put (s : State) (c : Nat) (k : Caller) : State :=
  { s with callers := s.callers.set c k }

def State.lock (s : State) (c : Nat) (id : TokenId) : State :=
  { s with locks := fun other => if other = id then some c else s.locks other }

/-- The end of a transaction: its locks are gone. -/
def State.finish (s : State) (c : Nat) (k : Caller) : State :=
  { s.put c { k with phase := .done, consumedId := none, revoked := [] } with
    locks := fun id => if s.locks id = some c then none else s.locks id }

/-- The UPDATE of `rotate`, with its condition. -/
def State.consume (s : State) (c : Nat) (k : Caller) : Option State :=
  match s.row k.secret with
  | none => some (s.put c { k with phase := .unconsumable })
  | some row =>
    if row.consumable k.now then
      -- a row that another transaction writes is waited for
      if s.locks row.id = none then
        some ((s.lock c row.id).put c { k with phase := .consumed row, consumedId := some row.id })
      else none
    else some (s.put c { k with phase := .unconsumable })

/-- The SELECT of `_refuse_unconsumable`. -/
def State.refuse (s : State) (c : Nat) (k : Caller) : State :=
  match s.row k.secret with
  | none => s.finish c k
  | some row =>
    if row.revokedAt.isSome then s.finish c k
    else if row.consumedAt.isSome then s.put c { k with phase := .condemned .reused }
    else s.finish c k

/-- The SELECT of `revoke`. -/
def State.logout (s : State) (c : Nat) (k : Caller) : State :=
  match s.row k.secret with
  | none => s.finish c k
  | some _ => s.put c { k with phase := .condemned .logout }

/-- `_revoke_family` starts: the rows its snapshot shows it. -/
def State.snapshot (s : State) : List TokenId :=
  (s.tokens.filter (·.revokedAt = none)).map (·.id)

def State.statement (s : State) (c : Nat) (k : Caller) : Option State :=
  match k.phase, k.op with
  | .start, .rotate => s.consume c k
  | .start, .revoke => some (s.logout c k)
  | .unconsumable, _ => some (s.refuse c k)
  | .condemned cause, _ => some (s.put c { k with phase := .revoking cause s.snapshot })
  | _, _ => none

def State.owner (s : State) (c : Nat) (k : Caller) (machine : Option MachineRow)
    (user : Option UserRow) : Option State :=
  match k.phase with
  | .consumed row =>
    if sessionOwner machine user row then some (s.put c { k with phase := .issuing row })
    else some (s.put c { k with phase := .condemned .ownerGone })
  | _ => none

/-- The family UPDATE comes to a row: it waits for the lock and asks
`revoked_at IS NULL` again. -/
def State.revokeRow (s : State) (c : Nat) (k : Caller) (id : TokenId) : Option State :=
  match k.phase with
  | .revoking cause todo =>
    if id ∈ todo ∧ (s.locks id = none ∨ s.locks id = some c) then
      let phase := Phase.revoking cause (todo.erase id)
      if (s.row id).any (·.revokedAt = none) then
        some ((s.lock c id).put c { k with phase := phase, revoked := id :: k.revoked })
      else some (s.put c { k with phase := phase })
    else none
  | _ => none

def Caller.write (k : Caller) (row : TokenRow) : TokenRow :=
  { row with
    consumedAt := if k.consumedId = some row.id then some k.now else row.consumedAt
    revokedAt := if row.id ∈ k.revoked then some k.now else row.revokedAt }

def State.commit (settings : Settings) (s : State) (c : Nat) (k : Caller) : Option State :=
  match k.phase with
  | .issuing row =>
    some
      { s.finish c k with
        tokens := s.tokens.map k.write ++
          [newRow settings s.nextId k.now row.userId row.machineId row.authVersion
            row.absoluteExpiresAt]
        nextId := s.nextId + 1 }
  | .revoking _ [] => some { s.finish c k with tokens := s.tokens.map k.write }
  | _ => none

def step (settings : Settings) (s : State) : Act → Option State
  | .begin op secret now =>
    some { s with callers := s.callers ++
      [{ op := op, secret := secret, now := now, phase := .start, consumedId := none, revoked := [] }] }
  | .statement c => s.callers[c]?.bind fun k => s.statement c k
  | .owner c machine user => s.callers[c]?.bind fun k => s.owner c k machine user
  | .revokeRow c id => s.callers[c]?.bind fun k => s.revokeRow c k id
  | .commit c => s.callers[c]?.bind fun k => s.commit settings c k
  | .abort c => s.callers[c]?.bind fun k => if k.phase = .done then none else some (s.finish c k)

/-- Between the UPDATE that consumes and the commit that issues. -/
def Caller.rotating (k : Caller) : Bool :=
  match k.phase with
  | .consumed _ | .issuing _ => true
  | _ => false

/-- The rows a family UPDATE has still to come to. -/
def Caller.todo (k : Caller) : List TokenId :=
  match k.phase with
  | .revoking _ todo => todo
  | _ => []

/-- Whether the next statement is the UPDATE that consumes, and would. -/
def State.consumes (s : State) (k : Caller) : Bool :=
  k.op = .rotate && k.phase = .start && (s.row k.secret).any (·.consumable k.now)

def Caller.condemns (k : Caller) : Bool :=
  match k.phase with
  | .condemned _ => true
  | _ => false

/-- No family UPDATE starts while a rotation is between its UPDATE and its
commit, and no rotation consumes a row that a family UPDATE has still to
come to. -/
def Apart (s : State) : Act → Prop
  | .statement c => ∀ k ∈ s.callers[c]?,
      (k.condemns → ∀ other ∈ s.callers, other.rotating = false) ∧
        (s.consumes k → ∀ other ∈ s.callers, k.secret ∉ other.todo)
  | _ => True

instance (s : State) (act : Act) : Decidable (Apart s act) :=
  match act with
  | .statement c => inferInstanceAs (Decidable (∀ k ∈ s.callers[c]?,
      (k.condemns → ∀ other ∈ s.callers, other.rotating = false) ∧
        (s.consumes k → ∀ other ∈ s.callers, k.secret ∉ other.todo)))
  | .begin .. | .owner .. | .revokeRow .. | .commit _ | .abort _ => .isTrue trivial

end StudioOS.RefreshTokens
