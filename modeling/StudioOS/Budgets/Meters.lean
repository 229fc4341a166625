import Mathlib.Data.List.Nodup
import StudioOS.Budgets.Model

/-!
# Budgets — Meters

What a meter of the current window amounts to. Every ledger entry of the
project belongs to one moment: the admission of its launch when the launch has
a reservation, its own `period_start` otherwise.
-/

namespace StudioOS.Budgets

open List Authz Launches

/-! ## The abstract account -/

/-- The reservation of the launch an entry reports on. -/
def UsageEntry.reservation? (entry : UsageEntry) (reservations : List Reservation) :
    Option Reservation :=
  reservations.find? fun r => entry.taskLaunchId = some r.taskLaunchId

/-- The entries of a window: a reserved launch spends in the window that
admitted it, any other entry in the window of its own period. -/
def windowEntries (policy : BudgetPolicy) (start : Option Timestamp)
    (reservations : List Reservation) (ledger : List UsageEntry) : List UsageEntry :=
  ledger.filter fun e => e.projectId = policy.projectId &&
    match e.reservation? reservations with
    | some r => r.projectId = policy.projectId && inWindow start r.createdAt
    | none => inWindow start e.periodStart

/-- The entries of the project whose own period starts in the window. -/
def periodEntries (policy : BudgetPolicy) (start : Option Timestamp) (ledger : List UsageEntry) :
    List UsageEntry :=
  ledger.filter fun e => e.projectId = policy.projectId && inWindow start e.periodStart

def sumOf (policy : BudgetPolicy) (metric : BudgetMetric) (entries : List UsageEntry) : Nat :=
  (entries.map (·.amount policy.currency metric)).sum

/-- What the run of a reservation was measured to use. -/
def Reservation.spent (reservation : Reservation) (policy : BudgetPolicy)
    (ledger : List UsageEntry) (metric : BudgetMetric) : LaunchUsage :=
  usageOf policy.currency metric (launchEntries policy ledger reservation.taskLaunchId)

/-- What the policy charges above the measure: nothing while the reservation
is held, the rest of the reservation where part of the usage stays unknown. -/
def Reservation.topUp (reservation : Reservation) (policy : BudgetPolicy)
    (ledger : List UsageEntry) (metric : BudgetMetric) : Nat :=
  let spent := reservation.spent policy ledger metric
  if reservation.status = .held then 0
  else if spent.unknown ≠ 0 ∧ policy.unknownCost = .chargeReservation ∨
      spent.known = 0 ∧ reservation.settleBasis = some .reservation then
    reservation.reserved metric - spent.actual
  else 0

/-- The unconsumed part of a held reservation. -/
def Reservation.unspent (reservation : Reservation) (policy : BudgetPolicy)
    (ledger : List UsageEntry) (metric : BudgetMetric) : Nat :=
  outstanding reservation (reservation.reserved metric) (reservation.spent policy ledger metric)

theorem UsageEntry.amount_eq_zero {entry : UsageEntry} {currency : String} {metric : BudgetMetric}
    (h : entry.known currency metric = false) : entry.amount currency metric = 0 := by
  simp [UsageEntry.amount, h]

theorem usageOf_actual_eq_zero {currency metric entries}
    (h : (usageOf currency metric entries).known = 0) :
    (usageOf currency metric entries).actual = 0 := by
  simp only [usageOf, countP_eq_zero] at h
  simp only [usageOf]
  induction entries with
  | nil => rfl
  | cons entry entries ih =>
    have hentry : entry.amount currency metric = 0 :=
      UsageEntry.amount_eq_zero (by simpa using h entry mem_cons_self)
    rw [map_cons, sum_cons, hentry, ih fun e he => h e (.tail _ he)]

/-- The charge of a reservation, split into the three parts of the account. -/
theorem charge_eq
    (policy ledger metric r) : charge r (r.reserved metric) (r.spent policy ledger metric) policy =
      (r.spent policy ledger metric).actual + r.topUp policy ledger metric +
        r.unspent policy ledger metric := by
  have hzero : (r.spent policy ledger metric).known = 0 →
      (r.spent policy ledger metric).actual = 0 := fun h => usageOf_actual_eq_zero h
  simp only [charge, Reservation.topUp, Reservation.unspent, outstanding]
  by_cases hheld : r.status = .held
  · simp only [hheld, if_true]
    omega
  simp only [hheld, if_false]
  by_cases hunknown : (r.spent policy ledger metric).unknown ≠ 0 ∧
      policy.unknownCost = .chargeReservation
  · simp only [hunknown, and_self, not_false_eq_true, ne_eq, if_true, true_or]
    omega
  by_cases hbasis : (r.spent policy ledger metric).known = 0 ∧
      r.settleBasis = some .reservation
  · have := hzero hbasis.1
    simp only [hunknown, hbasis, if_false, if_true, and_self, or_true]
    omega
  · simp [hunknown, hbasis]

theorem Meter.add_eq (m : Meter) (policy metric ledger r) : m.add policy metric ledger r =
      { consumed := m.consumed +
          ((r.spent policy ledger metric).actual + r.topUp policy ledger metric)
        held := m.held + r.unspent policy ledger metric
        unknown := m.unknown + (r.spent policy ledger metric).unknown } := by
  have hcharge := charge_eq policy ledger metric r
  simp only [Meter.add, Reservation.spent, Reservation.unspent] at hcharge ⊢
  rw [hcharge, Nat.add_sub_cancel]

theorem foldl_add (policy metric ledger) (rows : List Reservation) (m) :
    (rows.foldl (fun m r => Meter.add m policy metric ledger r) m).consumed =
        m.consumed + (rows.map fun r => (r.spent policy ledger metric).actual).sum +
          (rows.map fun r => r.topUp policy ledger metric).sum ∧
      (rows.foldl (fun m r => Meter.add m policy metric ledger r) m).held =
        m.held + (rows.map fun r => r.unspent policy ledger metric).sum := by
  induction rows generalizing m with
  | nil => simp
  | cons r rows ih =>
    obtain ⟨hconsumed, hheld⟩ := ih (m.add policy metric ledger r)
    rw [foldl_cons, hconsumed, hheld, Meter.add_eq]
    simp only [map_cons, sum_cons]
    omega

theorem sum_filter_or {α : Type} (f : α → Nat) (p q : α → Bool) (l : List α)
    (hdisjoint : ∀ a ∈ l, p a → ¬ q a) : ((l.filter fun a => p a || q a).map f).sum =
      ((l.filter p).map f).sum + ((l.filter q).map f).sum := by
  induction l with
  | nil => rfl
  | cons a l ih =>
    have hl := ih fun b hb => hdisjoint b (.tail _ hb)
    have ha := hdisjoint a mem_cons_self
    cases hp : p a <;> cases hq : q a
    · simpa [hp, hq] using hl
    · simp [hp, hq, hl, Nat.add_left_comm]
    · simp [hp, hq, hl, Nat.add_assoc]
    · exact absurd hq (ha hp)

theorem sum_groups {α κ : Type} [DecidableEq κ] (key : α → Option κ) (f : α → Nat)
    (keys : List κ) (hnd : keys.Nodup) (l : List α) :
    (keys.map fun k => ((l.filter fun a => key a = some k).map f).sum).sum =
      ((l.filter fun a => keys.any fun k => key a = some k).map f).sum := by
  induction keys with
  | nil => simp
  | cons k keys ih =>
    obtain ⟨hk, hkeys⟩ := nodup_cons.1 hnd
    simp only [map_cons, sum_cons, any_cons, ih hkeys]
    refine (sum_filter_or f _ _ l fun a _ ha hany => ?_).symm
    obtain ⟨k', hk', heq⟩ := any_eq_true.1 hany
    obtain rfl : k = k' := Option.some.inj ((of_decide_eq_true ha).symm.trans
      (of_decide_eq_true heq))
    exact hk hk'

section Split

variable {policy : BudgetPolicy} {reservations : List Reservation}

/-- Under `uq_budget_reservations_launch` the reservation of an entry is the
one row of its launch. -/
theorem reservation?_eq_some_iff (huq : (reservations.map (·.taskLaunchId)).Nodup) {e : UsageEntry}
    {r} : e.reservation? reservations = some r ↔
      r ∈ reservations ∧ e.taskLaunchId = some r.taskLaunchId := by
  constructor
  · intro h
    exact ⟨List.mem_of_find?_eq_some h, by simpa using List.find?_some h⟩
  rintro ⟨hmem, hlaunch⟩
  cases hfind : e.reservation? reservations with
  | none =>
    have := List.find?_eq_none.1 hfind r hmem
    simp [hlaunch] at this
  | some r' =>
    have hmem' := List.mem_of_find?_eq_some hfind
    have hlaunch' : e.taskLaunchId = some r'.taskLaunchId := by simpa using List.find?_some hfind
    have heq : r'.taskLaunchId = r.taskLaunchId := Option.some.inj (hlaunch'.symm.trans hlaunch)
    rw [inj_on_of_nodup_map huq hmem' hmem heq]

theorem reservation?_eq_none_iff {e : UsageEntry} : e.reservation? reservations = none ↔
      ∀ r ∈ reservations, e.taskLaunchId ≠ some r.taskLaunchId := by
  simp [UsageEntry.reservation?]

/-- The key by which `_meters` groups the ledger of the project. -/
def UsageEntry.reservedKey (entry : UsageEntry) (policy : BudgetPolicy) : Option Uuid :=
  if entry.projectId = policy.projectId then entry.taskLaunchId else none

theorem launchEntries_eq {ledger} (launchId) : launchEntries policy ledger launchId =
      ledger.filter fun e => e.reservedKey policy = some launchId := by
  refine filter_congr fun e _ => ?_
  by_cases h : e.projectId = policy.projectId <;> simp [UsageEntry.reservedKey, h]

theorem windowEntries_eq {start ledger} (huq : (reservations.map (·.taskLaunchId)).Nodup) :
    windowEntries policy start reservations ledger = ledger.filter fun e =>
        (((windowReservations policy start reservations).map (·.taskLaunchId)).any
          fun k => e.reservedKey policy = some k) || decide (e.projectId = policy.projectId ∧
          (∀ r ∈ reservations, e.taskLaunchId ≠ some r.taskLaunchId) ∧
          inWindow start e.periodStart) := by
  refine filter_congr fun e _ => ?_
  by_cases hproject : e.projectId = policy.projectId
  · cases hfind : e.reservation? reservations with
    | none =>
      have hnone := reservation?_eq_none_iff.1 hfind
      have hany : (((windowReservations policy start reservations).map (·.taskLaunchId)).any
          fun k => e.reservedKey policy = some k) = false := by
        simp only [any_eq_false, mem_map, decide_eq_true_eq]
        rintro _ ⟨r, hr, rfl⟩ hkey
        exact hnone r (mem_filter.1 hr).1 (by simpa [UsageEntry.reservedKey, hproject] using hkey)
      simpa [hproject, hany] using fun _ => hnone
    | some r =>
      obtain ⟨hmem, hlaunch⟩ := (reservation?_eq_some_iff huq).1 hfind
      have hsome : ¬ ∀ r ∈ reservations, e.taskLaunchId ≠ some r.taskLaunchId :=
        fun h => h r hmem hlaunch
      have hany : (((windowReservations policy start reservations).map (·.taskLaunchId)).any
          fun k => e.reservedKey policy = some k) =
            (r.projectId = policy.projectId && inWindow start r.createdAt) := by
        rw [Bool.eq_iff_iff, any_eq_true]
        constructor
        · rintro ⟨_, hk, hkey⟩
          obtain ⟨r', hr', rfl⟩ := mem_map.1 hk
          have hlaunch' : e.taskLaunchId = some r'.taskLaunchId := by
            simpa [UsageEntry.reservedKey, hproject] using hkey
          have heq := Option.some.inj (hlaunch'.symm.trans hlaunch)
          obtain ⟨hr', hwindow⟩ := mem_filter.1 hr'
          rw [inj_on_of_nodup_map huq hr' hmem heq] at hwindow
          simpa using hwindow
        · intro hwindow
          refine ⟨r.taskLaunchId, mem_map.2 ⟨r, mem_filter.2 ⟨hmem, ?_⟩, rfl⟩, ?_⟩
          · simpa using hwindow
          · simp [UsageEntry.reservedKey, hproject, hlaunch]
      simp [hproject, hany, hsome]
  · simp [UsageEntry.reservedKey, hproject]

end Split

/-- The usage measured for the reservations of the window, with the usage
outside of every reservation. -/
theorem spent_add_outside (policy start reservations ledger metric)
    (huq : (reservations.map (·.taskLaunchId)).Nodup) :
    ((windowReservations policy start reservations).map fun r =>
        (r.spent policy ledger metric).actual).sum +
      sumOf policy metric (outsideEntries policy start reservations ledger) =
    sumOf policy metric (windowEntries policy start reservations ledger) := by
  have hgroups := sum_groups (fun e : UsageEntry => e.reservedKey policy)
    (fun e => e.amount policy.currency metric)
    ((windowReservations policy start reservations).map (·.taskLaunchId))
    (huq.sublist (filter_sublist.map _)) ledger
  rw [map_map] at hgroups
  have hspent : ((windowReservations policy start reservations).map fun r =>
      (r.spent policy ledger metric).actual) =
      (windowReservations policy start reservations).map
        ((fun k => ((ledger.filter fun e => e.reservedKey policy = some k).map
          fun e => e.amount policy.currency metric).sum) ∘ (·.taskLaunchId)) := by
    refine map_congr_left fun r _ => ?_
    simp [Reservation.spent, usageOf, launchEntries_eq]
  rw [hspent, hgroups, sumOf, sumOf, outsideEntries, windowEntries_eq huq]
  refine (sum_filter_or _ _ _ ledger fun e _ hreserved houtside => ?_).symm
  obtain ⟨k, hk, hkey⟩ := any_eq_true.1 hreserved
  obtain ⟨r, hr, rfl⟩ := mem_map.1 hk
  obtain ⟨hproject, hnone, -⟩ := of_decide_eq_true houtside
  exact hnone r (mem_filter.1 hr).1 (by simpa [UsageEntry.reservedKey, hproject] using hkey)

/-- A daily budget of 10 with 3 reserved for each launch. -/
def dailyPolicy : BudgetPolicy where
  id := ⟨"policy"⟩
  projectId := ⟨"project"⟩
  mode := .enforce
  period := .day
  currency := "EUR"
  costLimit := some 10
  tokenLimit := none
  maxActiveLaunches := none
  reservationCost := some 3
  reservationTokens := none
  unknownCost := .chargeReservation
  lateUsage := .holdReservation
  settleAfterSeconds := 60
  alertThresholds := []
  approvedAt := some 1

/-- A run of the daily budget, admitted at a moment and settled later. -/
def settledRun (launchId : Uuid) (createdAt : Timestamp) (basis : SettleBasis) : Reservation where
  projectId := ⟨"project"⟩
  policyId := ⟨"policy"⟩
  taskLaunchId := launchId
  status := .settled
  reservedCost := some 3
  reservedTokens := none
  settleBasis := some basis
  alerts := []
  createdAt := createdAt
  settledAt := some 100
  version := 2

def costEntry (launchId : Uuid) (periodStart : Timestamp) (cost : Nat) : UsageEntry where
  projectId := ⟨"project"⟩
  taskLaunchId := some launchId
  periodStart := periodStart
  tokensIn := .unknown
  tokensOut := .unknown
  tokensCached := .unknown
  cachedTokensScope := .includedInInput
  cost := .measured (cost, "EUR")

end StudioOS.Budgets
