import StudioOS.Budgets.Model
import StudioOS.Launch.Terminal

/-!
# Budgets — System

The launches of `Launch/System` with the admissions of the projects that have a budget policy. An
admission, a reconciliation and an admission batch are transactions that hold the policy row of
their project, between any steps of the other callers. A transaction sees its own reservations and
launches at once, everybody else when it commits.
-/

namespace StudioOS.Budgets

open Authz Launches Runs

/-- The policies, one row for each project. They stay as they are: a write
of a policy clears its approval. -/
structure Policies where
  of : Uuid → Option BudgetPolicy
  keyed : ∀ p policy, of p = some policy → policy.projectId = p

inductive TxPhase where
  /-- The policy row is locked. -/
  | locked
  | reconciled (now : Timestamp)
  | admitted (now : Timestamp) (admission : Admission)
  | staged

/-- A transaction that holds the policy row. `caller` is the retry it serves, `view` the
reservations as it sees them, `staged` the launches it wrote, `lapsed` the runs past their
`expires_at` that it settled or passed over. -/
structure Tx where
  caller : Option CallerId
  began : Timestamp
  phase : TxPhase
  view : List Reservation
  staged : List (Uuid × Launch)
  lapsed : List Uuid

structure State where
  base : Launches.State
  reservations : List Reservation
  ledger : List UsageEntry
  transactions : Uuid → Option Tx
  lapsed : List Uuid

/-- The policies come into force over any launches, with no reservation. -/
def State.start (base : Launches.State) : State :=
  { base := base, reservations := [], ledger := [], transactions := fun _ => none, lapsed := [] }

def State.rowsOf (s : State) (p : Uuid) : List Reservation :=
  s.reservations.filter fun r => r.projectId = p

/-- The launches as a transaction sees them. -/
def Tx.launches (tx : Tx) (launches : Uuid → Option Launch) (id : Uuid) : Option Launch :=
  (tx.staged.lookup id).or (launches id)

/-- The reservations as a transaction sees them. -/
def State.seen (s : State) (p : Uuid) (tx : Tx) : List Reservation :=
  (s.reservations.filter fun r => r.projectId ≠ p) ++ tx.view

def State.setTx (s : State) (p : Uuid) (tx : Option Tx) : State :=
  { s with transactions := Function.update s.transactions p tx }

/-- The caller is past its checks and about to create a retry. -/
def creating (base : Launches.State) (c : CallerId) :
    Option (Caller × Principal × TaskLaunchRetry × Launch) :=
  match base.callers c with
  | none => none
  | some k =>
    match k.op, k.phase with
    | .retry principal retry, .creating row => some (k, principal, retry, row)
    | _, _ => none

/-- Whom the transaction serves: a plain creation, or a retry in the
project. -/
def servable (base : Launches.State) (p : Uuid) : Option CallerId → Bool
  | none => true
  | some c => (creating base c).any fun (_, _, _, row) => row.projectId = p

/-- The row that `stage_launch` writes. -/
def Tx.newRow (tx : Tx) (base : Launches.State) (p requestedByUserId : Uuid)
    (launchIn : TaskLaunchCreate) (now : Timestamp) : Option Launch :=
  match tx.caller with
  | none => some (stageLaunch p requestedByUserId launchIn 1 none none now tx.began)
  | some c =>
    (creating base c).map fun (k, principal, retry, row) =>
      stageLaunch p (userId principal) (row.retryOf retry) (row.attempt + 1) (some k.launchId)
        retry.replay now tx.began

/-- The caller returns what its transaction came to. -/
def finishCaller (base : Launches.State) (caller : Option CallerId)
    (result : Except HttpError Uuid) : Launches.State :=
  match caller.bind (creating base) , caller with
  | some (k, _), some c => base.finish c k result
  | _, _ => base

/-- `reconcile` in the transaction. -/
def Tx.reconcile (tx : Tx) (policy : BudgetPolicy) (launches : Uuid → Option Launch)
    (ledger : List UsageEntry) (now : Timestamp) : Tx :=
  let settled := tx.view.filter fun r => r.status = .held &&
    (launches r.taskLaunchId).any fun launch => !launch.status.isTerminal &&
      isOver policy.projectId launches now r &&
      (r.reconcile launch policy ledger now).status ≠ .held
  { tx with
    phase := .reconciled now
    view := Budgets.reconcile policy tx.view launches ledger now
    lapsed := tx.lapsed ++ settled.map (·.taskLaunchId) }

/-- The admission is granted: the slot count passed over the runs that are
past their `expires_at`. -/
def Tx.grant (tx : Tx) (launches : Uuid → Option Launch) (now : Timestamp)
    (admission : Admission) : Tx :=
  let passed := tx.view.filter fun r => r.status = .held &&
    (launches r.taskLaunchId).any fun launch =>
      !launch.status.isTerminal && decide (launch.expiresAt ≤ now)
  { tx with
    phase := .admitted now admission
    lapsed := tx.lapsed ++ passed.map (·.taskLaunchId) }

/-- `stage_launch` past the admission: the launch, then `record_reservation`. -/
def Tx.stage (tx : Tx) (p newId : Uuid) (row : Launch) (admission : Admission) : Tx :=
  { tx with
    phase := .staged
    view := tx.view ++ [admission.record p newId tx.began]
    staged := (newId, row) :: tx.staged }

/-- `detail` of a `409 budget_refused`, as far as callers branch on it. -/
def BudgetRefusal.toError (refusal : BudgetRefusal) : HttpError :=
  conflict "budget_refused" [("reason", refusal.reason)]

def State.rollback (s : State) (p : Uuid) (tx : Tx) (e : HttpError) : State :=
  { s with
    base := finishCaller s.base tx.caller (.error e)
    transactions := Function.update s.transactions p none }

/-- The rows a commit brings into the table of launches. -/
def insertStaged (base : Launches.State) (tx : Tx) : Launches.State :=
  { base with launches := tx.launches base.launches }

/-- A retry takes its place in `uq_task_launches_retry_of`. -/
def takeRetry (base : Launches.State) (tx : Tx) : Option Launches.State :=
  match tx.caller, tx.staged with
  | none, _ => some base
  | some c, (newId, _) :: _ =>
    (creating base c).bind fun (k, _) =>
      if base.retryIndex k.launchId = none then
        some (State.finish
          { base with retryIndex := Function.update base.retryIndex k.launchId (some newId) }
          c k (.ok newId))
      else none
  | some _, [] => none

/-- The commit. A launch whose id was taken meanwhile cannot commit. -/
def State.commit (s : State) (p : Uuid) (tx : Tx) : Option State :=
  if tx.staged.all fun new => (s.base.launches new.1).isNone then
    (takeRetry (insertStaged s.base tx) tx).map fun base =>
      { s with
        base := base
        reservations := s.seen p tx
        transactions := Function.update s.transactions p none
        lapsed := s.lapsed ++ tx.lapsed }
  else none

inductive Act where
  | launch (act : Launches.Act)
  | clock (now : Timestamp)
  /-- Usage is reported, late or corrected. -/
  | report (ledger : List UsageEntry)
  /-- `_get_policy(lock=True)`. -/
  | lock (p : Uuid) (caller : Option CallerId) (began : Timestamp)
  | reconcile (p : Uuid) (now : Timestamp)
  /-- `decide_admission` past `reconcile`. -/
  | decide (p : Uuid)
  | stage (p newId requestedByUserId : Uuid) (launchIn : TaskLaunchCreate)
  /-- The next item of an admission batch. -/
  | again (p : Uuid)
  | commit (p : Uuid)
  | rollback (p : Uuid) (e : HttpError)

/-- The transaction of a retry, while it is open. -/
def State.serving (s : State) (c : CallerId) : Bool :=
  (creating s.base c).any fun (_, _, _, row) =>
    (s.transactions row.projectId).any fun tx => tx.caller = some c

/-- The steps of the launches that no admission governs: a launch of a
project with a policy is created by a transaction, which also answers the
retry it serves. -/
def State.ungoverned (policies : Policies) (s : State) : Launches.Act → Bool
  | .create _ projectId _ _ _ => (policies.of projectId).isNone
  | .createRetry c _ =>
    (creating s.base c).all fun (_, _, _, row) => (policies.of row.projectId).isNone
  | .refuseRetry c _ => !s.serving c
  | _ => true

def State.reconcileStep (policies : Policies) (s : State) (p : Uuid) (now : Timestamp) :
    Option State := do
  let tx ← s.transactions p
  let policy ← policies.of p
  match tx.phase with
  | .locked =>
    some (s.setTx p (some (tx.reconcile policy (tx.launches s.base.launches) s.ledger now)))
  | _ => none

def State.decideStep (policies : Policies) (s : State) (p : Uuid) : Option State := do
  let tx ← s.transactions p
  let policy ← policies.of p
  match tx.phase with
  | .reconciled now =>
    let launches := tx.launches s.base.launches
    match decideAdmission policy (s.seen p tx) launches s.ledger now with
    | .error refusal => some (s.rollback p tx refusal.toError)
    | .ok admission => some (s.setTx p (some (tx.grant launches now admission)))
  | _ => none

def State.stageStep (s : State) (p newId requestedByUserId : Uuid) (launchIn : TaskLaunchCreate) :
    Option State := do
  let tx ← s.transactions p
  match tx.phase with
  | .admitted now admission =>
    let row ← tx.newRow s.base p requestedByUserId launchIn now
    if tx.launches s.base.launches newId = none then
      some (s.setTx p (some (tx.stage p newId row admission)))
    else none
  | _ => none

def State.againStep (s : State) (p : Uuid) : Option State := do
  let tx ← s.transactions p
  match tx.phase, tx.caller with
  | .staged, none => some (s.setTx p (some { tx with phase := .locked }))
  | _, _ => none

def State.commitStep (s : State) (p : Uuid) : Option State := do
  let tx ← s.transactions p
  match tx.phase, tx.caller, tx.staged with
  | .staged, _, _ => s.commit p tx
  -- `reconcile_project`
  | .reconciled _, none, [] => s.commit p tx
  | _, _, _ => none

def step (settings : Settings) (policies : Policies) (s : State) : Act → Option State
  | .launch act =>
    if s.ungoverned policies act then
      (Launches.step settings s.base act).map fun base => { s with base := base }
    else none
  | .clock now => some { s with base := { s.base with clock := now } }
  | .report ledger => some { s with ledger := ledger }
  | .lock p caller began =>
    if (s.transactions p).isNone && (policies.of p).isSome && servable s.base p caller then
      some (s.setTx p (some
        { caller := caller, began := began, phase := .locked, view := s.rowsOf p
          staged := [], lapsed := [] }))
    else none
  | .reconcile p now => s.reconcileStep policies p now
  | .decide p => s.decideStep policies p
  | .stage p newId requestedByUserId launchIn => s.stageStep p newId requestedByUserId launchIn
  | .again p => s.againStep p
  | .commit p => s.commitStep p
  | .rollback p e => (s.transactions p).map fun tx => s.rollback p tx e

end StudioOS.Budgets
