import Mathlib.Algebra.Ring.Nat
import StudioOS.Launch.Model

/-!
# Budgets — Model

The budget policy of a project, its reservations and the usage ledger: what `_meters` computes, how
`reconcile` settles a reservation, and what `decide_admission` checks.

Amounts are exact: `Numeric(18, 8)` counts in units of 10⁻⁸, tokens in units.
-/

namespace StudioOS.Budgets

open Authz Launches

inductive BudgetMode where
  | alertOnly
  | enforce
deriving DecidableEq

inductive BudgetPeriod where
  | day
  | month
  | lifetime

inductive UnknownCostPolicy where
  | chargeReservation
  | ignore
deriving DecidableEq

inductive LateUsagePolicy where
  | holdReservation
  | release
deriving DecidableEq

/-- The metrics a meter counts; slots are counted in launches. -/
inductive BudgetMetric where
  | cost
  | tokens
  | slots

inductive BudgetAlertCode where
  | thresholdReached
  | limitExceeded
  | slotsExhausted
  | unknownUsage
  | enforcePendingApproval

structure BudgetAlert where
  code : BudgetAlertCode
  metric : Option BudgetMetric
  threshold : Option Nat

/-- `_REFUSALS`. -/
def refusalReason : BudgetMetric → String
  | .cost => "budget_cost_exhausted"
  | .tokens => "budget_tokens_exhausted"
  | .slots => "budget_slots_exhausted"

/-- `BudgetRefusal`, the detail of a `409`. -/
structure BudgetRefusal where
  reason : String
  metric : BudgetMetric
  limit : Nat
  consumed : Nat
  held : Nat
  requested : Nat
  periodStart : Option Timestamp

/-- `BudgetPolicyModel`. -/
structure BudgetPolicy where
  id : Uuid
  projectId : Uuid
  mode : BudgetMode
  period : BudgetPeriod
  currency : String
  costLimit : Option Nat
  tokenLimit : Option Nat
  maxActiveLaunches : Option Nat
  reservationCost : Option Nat
  reservationTokens : Option Nat
  unknownCost : UnknownCostPolicy
  lateUsage : LateUsagePolicy
  settleAfterSeconds : Nat
  alertThresholds : List Nat
  approvedAt : Option Timestamp

inductive ReservationStatus where
  | held
  | settled
  | released
deriving DecidableEq

inductive SettleBasis where
  | measured
  | reservation
  | none
deriving DecidableEq

/-- `BudgetReservationModel`. -/
structure Reservation where
  projectId : Uuid
  policyId : Uuid
  taskLaunchId : Uuid
  status : ReservationStatus
  reservedCost : Option Nat
  reservedTokens : Option Nat
  settleBasis : Option SettleBasis
  alerts : List BudgetAlert
  createdAt : Timestamp
  settledAt : Option Timestamp
  version : Nat

/-- A measure of the ledger with its coverage: `NULL` goes with `unknown`. -/
inductive Measure (α : Type) where
  | unknown
  | measured (value : α)
  | estimated (value : α)
deriving DecidableEq

def Measure.value? {α : Type} : Measure α → Option α
  | .unknown => none
  | .measured value | .estimated value => some value

inductive CachedTokensScope where
  | includedInInput
  | additionalToInput
deriving DecidableEq

/-- `UsageLedgerEntryModel`. The cost carries its currency. -/
structure UsageEntry where
  projectId : Uuid
  taskLaunchId : Option Uuid
  periodStart : Timestamp
  tokensIn : Measure Nat
  tokensOut : Measure Nat
  tokensCached : Measure Nat
  cachedTokensScope : CachedTokensScope
  cost : Measure (Nat × String)

def microsecondsPerDay : Nat := 86400 * 1000000

/-- The day of the month, from 0, of a day counted from 1970-01-01. -/
def dayOfMonth (days : Nat) : Nat :=
  let doe := (days + 719468) % 146097
  let yoe := (doe - doe / 1460 + doe / 36524 - doe / 146096) / 365
  let doy := doe - (365 * yoe + yoe / 4 - yoe / 100)
  doy - (153 * ((5 * doy + 2) / 153) + 2) / 5

def periodStart (period : BudgetPeriod) (now : Timestamp) : Option Timestamp :=
  let days := now / microsecondsPerDay
  match period with
  | .day => some (days * microsecondsPerDay)
  | .month => some ((days - dayOfMonth days) * microsecondsPerDay)
  | .lifetime => none

/-- `effective_mode` of a stored policy. -/
def BudgetPolicy.effectiveMode (policy : BudgetPolicy) : BudgetMode :=
  if policy.mode = .enforce ∧ policy.approvedAt.isSome then .enforce else .alertOnly

/-- `cost_known`, `tokens_known`. -/
def UsageEntry.known (entry : UsageEntry) (currency : String) : BudgetMetric → Bool
  | .cost => (entry.cost.value?.map Prod.snd) = some currency
  | .tokens => entry.tokensIn.value?.isSome && entry.tokensOut.value?.isSome &&
      (entry.cachedTokensScope != .additionalToInput || entry.tokensCached.value?.isSome)
  | .slots => false

/-- `cost`, `tokens_total`. -/
def UsageEntry.total (entry : UsageEntry) : BudgetMetric → Nat
  | .cost => (entry.cost.value?.map Prod.fst).getD 0
  | .tokens => entry.tokensIn.value?.getD 0 + entry.tokensOut.value?.getD 0 +
      (if entry.cachedTokensScope = .additionalToInput then entry.tokensCached.value?.getD 0 else 0)
  | .slots => 0

/-- What an entry adds to the sum of a metric. -/
def UsageEntry.amount (entry : UsageEntry) (currency : String) (metric : BudgetMetric) : Nat :=
  if entry.known currency metric then entry.total metric else 0

/-- `_LaunchUsage`, in one metric. -/
structure LaunchUsage where
  actual : Nat
  known : Nat
  unknown : Nat

/-- `_usage_columns` over the selected entries. -/
def usageOf (currency : String) (metric : BudgetMetric) (entries : List UsageEntry) : LaunchUsage :=
  { actual := (entries.map (·.amount currency metric)).sum
    known := entries.countP (·.known currency metric)
    unknown := entries.countP fun entry => !entry.known currency metric }

def Reservation.reserved (reservation : Reservation) : BudgetMetric → Nat
  | .cost => reservation.reservedCost.getD 0
  | .tokens => reservation.reservedTokens.getD 0
  | .slots => 0

def inWindow (start : Option Timestamp) (at_ : Timestamp) : Bool :=
  match start with
  | none => true
  | some start => start ≤ at_

def windowReservations (policy : BudgetPolicy) (start : Option Timestamp)
    (reservations : List Reservation) : List Reservation :=
  reservations.filter fun r => r.projectId = policy.projectId ∧ inWindow start r.createdAt

/-- The ledger entries of a reserved launch, of any period. -/
def launchEntries (policy : BudgetPolicy) (ledger : List UsageEntry) (launchId : Uuid) :
    List UsageEntry :=
  ledger.filter fun e => e.projectId = policy.projectId ∧ e.taskLaunchId = some launchId

/-- `outside`: the entries of the window whose launch has no reservation. -/
def outsideEntries (policy : BudgetPolicy) (start : Option Timestamp)
    (reservations : List Reservation) (ledger : List UsageEntry) : List UsageEntry :=
  ledger.filter fun e => e.projectId = policy.projectId ∧
    (∀ r ∈ reservations, e.taskLaunchId ≠ some r.taskLaunchId) ∧ inWindow start e.periodStart

def charge (reservation : Reservation) (reserved : Nat) (spent : LaunchUsage)
    (policy : BudgetPolicy) : Nat :=
  if reservation.status = .held then max spent.actual reserved
  else if spent.unknown ≠ 0 ∧ policy.unknownCost = .chargeReservation then
    max spent.actual reserved
  else if spent.known = 0 ∧ reservation.settleBasis = some .reservation then reserved
  else spent.actual

/-- The part of a reservation not consumed yet. -/
def outstanding (reservation : Reservation) (reserved : Nat) (spent : LaunchUsage) : Nat :=
  if reservation.status = .held then reserved - spent.actual else 0

/-- `_Meters`, in one metric. -/
structure Meter where
  consumed : Nat
  held : Nat
  unknown : Nat

def Meter.add (meter : Meter) (policy : BudgetPolicy) (metric : BudgetMetric)
    (ledger : List UsageEntry) (reservation : Reservation) : Meter :=
  let spent := usageOf policy.currency metric
    (launchEntries policy ledger reservation.taskLaunchId)
  let reserved := reservation.reserved metric
  let open_ := outstanding reservation reserved spent
  { consumed := meter.consumed + (charge reservation reserved spent policy - open_)
    held := meter.held + open_
    unknown := meter.unknown + spent.unknown }

/-- `_meters`, in one metric. -/
def meter (policy : BudgetPolicy) (start : Option Timestamp) (reservations : List Reservation)
    (ledger : List UsageEntry) (metric : BudgetMetric) : Meter :=
  let charged := (windowReservations policy start reservations).foldl
    (fun m r => Meter.add m policy metric ledger r) { consumed := 0, held := 0, unknown := 0 }
  let loose := usageOf policy.currency metric (outsideEntries policy start reservations ledger)
  { charged with
    consumed := charged.consumed + loose.actual
    unknown := charged.unknown + loose.unknown }

/-- `_active_launches`, with the launches as the statement sees them. -/
def activeLaunches (projectId : Uuid) (reservations : List Reservation)
    (launches : Uuid → Option Launch) (now : Timestamp) : Nat :=
  reservations.countP fun r => r.projectId = projectId ∧ r.status = .held ∧
    (launches r.taskLaunchId).any fun launch =>
      !launch.status.isTerminal && decide (now < launch.expiresAt)

def neverRan (launch : Launch) : Bool :=
  launch.sessionId.isNone && (launch.status = .rejected ∨ launch.status = .requested ∨
    launch.reasonCode = .expiredUnpulled)

/-- The reservations `reconcile` looks at: held, of a run that is over. -/
def isOver (projectId : Uuid) (launches : Uuid → Option Launch) (now : Timestamp)
    (reservation : Reservation) : Bool :=
  reservation.projectId = projectId && reservation.status = .held &&
    (launches reservation.taskLaunchId).any fun launch =>
      launch.status.isTerminal || decide (launch.expiresAt ≤ now)

def Reservation.settle (reservation : Reservation) (status : ReservationStatus)
    (basis : SettleBasis) (now : Timestamp) : Reservation :=
  { reservation with
    status := status
    settleBasis := some basis
    settledAt := some now
    version := reservation.version + 1 }

/-- The body of the loop of `reconcile`. -/
def Reservation.reconcile (reservation : Reservation) (launch : Launch) (policy : BudgetPolicy)
    (ledger : List UsageEntry) (now : Timestamp) : Reservation :=
  if ∃ e ∈ ledger, e.taskLaunchId = some reservation.taskLaunchId then
    reservation.settle .settled .measured now
  else if neverRan launch then reservation.settle .released .none now
  else if now < (launch.finishedAt.getD launch.expiresAt) + seconds policy.settleAfterSeconds then
    reservation
  else if policy.lateUsage = .holdReservation then reservation.settle .settled .reservation now
  else reservation.settle .released .none now

def reconcile (policy : BudgetPolicy) (reservations : List Reservation)
    (launches : Uuid → Option Launch) (ledger : List UsageEntry) (now : Timestamp) :
    List Reservation :=
  reservations.map fun r =>
    match launches r.taskLaunchId with
    | none => r
    | some launch =>
      if isOver policy.projectId launches now r then r.reconcile launch policy ledger now else r

def limits (policy : BudgetPolicy) : List (BudgetMetric × Nat × Nat) :=
  (policy.costLimit.toList.map fun l => (.cost, l, policy.reservationCost.getD 0)) ++
    policy.tokenLimit.toList.map fun l => (.tokens, l, policy.reservationTokens.getD 0)

structure Admission where
  policyId : Uuid
  reservedCost : Option Nat
  reservedTokens : Option Nat
  alerts : List BudgetAlert

/-- A threshold that the admission reaches, `limit * threshold / 100`. -/
def thresholdReached (limit before after threshold : Nat) : Bool :=
  (100 * before < limit * threshold ∧ limit * threshold ≤ 100 * after) ∨
    (before = after ∧ limit * threshold ≤ 100 * after ∧ threshold = 100)

/-- One limit of `decide_admission`: what is left of the budget, or the
alerts. -/
def checkLimit (policy : BudgetPolicy) (start : Option Timestamp) (m : Meter)
    (metric : BudgetMetric) (limit requested : Nat) : Except BudgetRefusal (List BudgetAlert) :=
  let before := m.consumed + m.held
  let after := before + requested
  if limit < after ∧ policy.effectiveMode = .enforce then
    .error { reason := refusalReason metric, metric := metric, limit := limit
             consumed := m.consumed, held := m.held, requested := requested, periodStart := start }
  else
    let exceeded := if limit < after then [⟨.limitExceeded, some metric, none⟩] else []
    let reached := (policy.alertThresholds.filter (thresholdReached limit before after)).map
      fun threshold => ⟨.thresholdReached, some metric, some threshold⟩
    let unknown := if m.unknown ≠ 0 then [⟨.unknownUsage, some metric, none⟩] else []
    .ok (exceeded ++ reached ++ unknown)

/-- The check of `max_active_launches`. -/
def checkSlots (policy : BudgetPolicy) (start : Option Timestamp) (active : Nat) :
    Except BudgetRefusal (List BudgetAlert) :=
  match policy.maxActiveLaunches with
  | none => .ok []
  | some limit =>
    if limit ≤ active then
      if policy.effectiveMode = .enforce then
        .error { reason := refusalReason .slots, metric := .slots, limit := limit
                 consumed := active, held := 0, requested := 1, periodStart := start }
      else .ok [⟨.slotsExhausted, some .slots, none⟩]
    else .ok []

/-- `decide_admission` past `reconcile`. -/
def decideAdmission (policy : BudgetPolicy) (reservations : List Reservation)
    (launches : Uuid → Option Launch) (ledger : List UsageEntry) (now : Timestamp) :
    Except BudgetRefusal Admission := do
  let start := periodStart policy.period now
  let pending : List BudgetAlert :=
    if policy.mode = .enforce ∧ policy.effectiveMode = .alertOnly then
      [⟨.enforcePendingApproval, none, none⟩] else []
  let slots ← checkSlots policy start (activeLaunches policy.projectId reservations launches now)
  let alerts ← (limits policy).mapM fun (metric, limit, requested) =>
    checkLimit policy start (meter policy start reservations ledger metric) metric limit requested
  return { policyId := policy.id
           reservedCost := policy.reservationCost
           reservedTokens := policy.reservationTokens
           alerts := pending ++ slots ++ alerts.flatten }

/-- `record_reservation`, for a launch that has none. -/
def Admission.record (admission : Admission) (projectId launchId : Uuid) (began : Timestamp) :
    Reservation :=
  { projectId := projectId
    policyId := admission.policyId
    taskLaunchId := launchId
    status := .held
    reservedCost := admission.reservedCost
    reservedTokens := admission.reservedTokens
    settleBasis := none
    alerts := admission.alerts
    createdAt := began
    settledAt := none
    version := 1 }

end StudioOS.Budgets
