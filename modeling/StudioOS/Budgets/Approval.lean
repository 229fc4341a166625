import StudioOS.Budgets.Model
import StudioOS.Library.Runs

/-!
# Approval — the policy of a project and who approved it

`put_policy` and `approve_policy` of `services/budgets.py`, statement by
statement. A call that reads the row locks it until its transaction ends; a row
that it has inserted is there for the others when it commits.
-/

namespace StudioOS.Budgets.Approval

open Authz Function Runs

deriving instance DecidableEq for BudgetPeriod

/-- `BudgetPolicyFields`. -/
structure PolicyValues where
  mode : BudgetMode
  period : BudgetPeriod
  currency : String
  costLimit : Option Nat
  tokenLimit : Option Nat
  maxActiveLaunches : Option Nat
  reservationCost : Option Nat
  reservationTokens : Option Nat
  unknownCost : UnknownCostPolicy
  lateUsage : LateUsagePolicy
  settleAfterSeconds : Nat
  alertThresholds : List Nat
deriving DecidableEq

structure PolicyRow where
  id : Uuid
  projectId : Uuid
  values : PolicyValues
  proposedByUserId : Uuid
  approvedByUserId : Option Uuid
  approvedAt : Option Timestamp
  version : Int

def PolicyRow.policy (row : PolicyRow) : BudgetPolicy :=
  { row.values with id := row.id, projectId := row.projectId, approvedAt := row.approvedAt }

def effectiveMode (row : Option PolicyRow) : BudgetMode :=
  row.elim .alertOnly fun row => row.policy.effectiveMode

inductive Op where
  /-- `id` is what `uuid4` draws. -/
  | put (id : Uuid) (values : PolicyValues) (expectedVersion : Option Int)
  | approve (expectedVersion : Int)

structure Call where
  principal : Principal
  /-- Its machine has a launch scope. -/
  launchScope : Bool
  op : Op

def Call.userId (call : Call) : Uuid := call.principal.machine.ownerUserId

def conflict (code : String) (details : List (String × String)) : HttpError :=
  { status := 409, detail := ("error_code", code) :: details }

def versionConflict (version : Int) : HttpError :=
  conflict "version_conflict" [("server_version", toString version)]

def notFound (detail : String) : HttpError := { status := 404, detail := [("detail", detail)] }

/-- What a call checks before its first read of the row. -/
def Call.authorize (call : Call) (projectId : Uuid) (projectExists : Bool) :
    Except HttpError Unit := do
  if call.launchScope then throw (forbidden "budget_policy" "write")
  ensureProjectAccess call.principal projectId "write"
  ensureCanWrite call.principal "budget_policy"
  match call.op with
  | .put .. => if !projectExists then throw (notFound "project not found")
  | .approve _ => if call.principal.role ≠ .admin then throw (forbidden "budget_policy" "approve")

def sameCreation (row : PolicyRow) (call : Call) (values : PolicyValues) : Prop :=
  row.version = 1 ∧ row.proposedByUserId = call.userId ∧ row.values = values

instance (row : PolicyRow) (call : Call) (values : PolicyValues) :
    Decidable (sameCreation row call values) := instDecidableAnd

/-- What a call commits, given the row under its lock; `created` says that the
row is read a second time, behind the insert. -/
def Call.decide (call : Call) (now : Timestamp) (row : PolicyRow) (created : Bool) :
    Except HttpError PolicyRow :=
  match call.op with
  | .put _ values expectedVersion =>
    if created = true ∨ expectedVersion = none then
      if ¬ sameCreation row call values then .error (versionConflict row.version)
      else if created then .ok { row with approvedByUserId := none, approvedAt := none }
      else .ok row
    else if expectedVersion ≠ some row.version then .error (versionConflict row.version)
    else
      .ok
        { row with
          values
          proposedByUserId := call.userId
          version := row.version + 1
          approvedByUserId := none
          approvedAt := none }
  | .approve expectedVersion =>
    if row.version ≠ expectedVersion then .error (versionConflict row.version)
    else if row.values.mode ≠ .enforce ∨ row.approvedAt ≠ none then
      .error (conflict "budget_approval_not_pending" [])
    else
      .ok
        { row with
          approvedByUserId := some call.userId
          approvedAt := some now
          version := row.version + 1 }

inductive Phase where
  | authorized
  /-- A creation that has read no row, before its insert. -/
  | absent
  | inserted
  | locked (row : PolicyRow) (created : Bool)
  | done (result : Except HttpError PolicyRow)

structure State where
  row : Option PolicyRow
  /-- The call that has locked the row, or inserted one. -/
  lock : Option Nat
  /-- What it has inserted. -/
  pending : Option PolicyRow
  calls : Nat → Option (Call × Phase)

def State.initial : State := { row := none, lock := none, pending := none, calls := fun _ => none }

inductive Act where
  | begin (c : Nat) (call : Call) (projectExists : Bool)
  | read (c : Nat)
  | insert (c : Nat)
  | reread (c : Nat)
  /-- It raises, or commits. -/
  | finish (c : Nat) (now : Timestamp)
  /-- It is cancelled, or its process ends. -/
  | fail (c : Nat)

def State.set (s : State) (c : Nat) (call : Call) (phase : Phase) : State :=
  { s with calls := update s.calls c (some (call, phase)) }

def State.take (s : State) (c : Nat) (call : Call) (row : PolicyRow) (created : Bool) : State :=
  { s.set c call (.locked row created) with lock := some c }

/-- The transaction of a call ends. -/
def State.close (s : State) (c : Nat) (call : Call) (result : Except HttpError PolicyRow) : State :=
  { s.set c call (.done result) with lock := none, pending := none }

/-- The first read of a call finds no row. -/
def Call.missing (call : Call) : Phase :=
  match call.op with
  | .put _ _ none => .absent
  | .put _ _ (some _) => .done (.error (versionConflict 0))
  | .approve _ => .done (.error (notFound "budget policy not found"))

/-- The row of `pg_insert`. -/
def Call.newRow (call : Call) (projectId : Uuid) : Option PolicyRow :=
  match call.op with
  | .put id values _ =>
    some
      { id, projectId, values, proposedByUserId := call.userId, approvedByUserId := none
        approvedAt := none, version := 1 }
  | .approve _ => none

def step (projectId : Uuid) (s : State) : Act → Option State
  | .begin c call projectExists =>
    match s.calls c, call.authorize projectId projectExists with
    | none, .ok _ => some (s.set c call .authorized)
    | none, .error error => some (s.set c call (.done (.error error)))
    | _, _ => none
  | .read c =>
    match s.calls c, s.row, s.lock with
    | some (call, .authorized), none, _ => some (s.set c call call.missing)
    | some (call, .authorized), some row, none => some (s.take c call row false)
    | _, _, _ => none
  | .insert c =>
    -- The insert waits for one that is not committed, and does nothing if there is a row.
    match s.calls c, s.row, s.lock with
    | some (call, .absent), some _, _ => some (s.set c call .inserted)
    | some (call, .absent), none, none =>
      (call.newRow projectId).map fun row =>
        { s.set c call .inserted with lock := some c, pending := some row }
    | _, _, _ => none
  | .reread c =>
    match s.calls c, s.row, s.pending with
    | some (call, .inserted), none, some row =>
      if s.lock = some c then some (s.take c call row true) else none
    | some (call, .inserted), some row, _ =>
      if s.lock = none then some (s.take c call row true) else none
    | _, _, _ => none
  | .finish c now =>
    match s.calls c with
    | some (call, .locked row created) =>
      match call.decide now row created with
      | .error error => some (s.close c call (.error error))
      | .ok written => some { s.close c call (.ok written) with row := some written }
    | _ => none
  | .fail c =>
    match s.calls c with
    | some (call, _) =>
      if s.lock = some c then some (s.close c call (.error { status := 500, detail := [] }))
      else none
    | none => none

/-! ## What a step does -/

/-- The version of the stored row, 0 where there is none. -/
def State.version (s : State) : Int := s.row.elim 0 PolicyRow.version

/-- What a commit makes of the row it has locked. -/
inductive Commits (call : Call) (row : PolicyRow) : PolicyRow → Prop where
  | replayed : Commits call row row
  | created (first : row.version = 1) :
      Commits call row { row with approvedByUserId := none, approvedAt := none }
  | replaced (values userId) :
      Commits call row
        { row with
          values
          proposedByUserId := userId
          version := row.version + 1
          approvedByUserId := none
          approvedAt := none }
  | approved {v} (op : call.op = .approve v) (userId now) :
      Commits call row
        { row with
          approvedByUserId := some userId
          approvedAt := some now
          version := row.version + 1 }

variable {projectId : Uuid} {s t : State} {a : Act} {c c' : Nat} {call : Call} {phase : Phase}
  {row written : PolicyRow} {created : Bool} {now : Timestamp}

theorem decide_commits (h : call.decide now row created = .ok written) :
    Commits call row written := by
  unfold Call.decide at h
  split at h
  · split at h
    · obtain ⟨hsame, h⟩ := guard_ok h
      split at h <;> cases h
      · exact .created (not_not.mp hsame).1
      · exact .replayed
    · obtain ⟨-, h⟩ := guard_ok h
      cases h
      exact .replaced _ _
  · rename_i hop
    obtain ⟨-, h⟩ := guard_ok h
    obtain ⟨-, h⟩ := guard_ok h
    cases h
    exact .approved hop _ _

/-- Only an admin approves. -/
def Call.Admin (call : Call) : Prop := ∀ v, call.op = .approve v → call.principal.role = .admin

theorem authorize_admin {projectExists u}
    (h : call.authorize projectId projectExists = .ok u) : call.Admin := by
  intro v hop
  by_contra hrole
  simp only [Call.authorize, hop] at h
  split at h
  · cases h
  obtain ⟨_, -, h⟩ := bind_ok h
  obtain ⟨_, -, h⟩ := bind_ok h
  cases h

/-- What has the first version is not approved. -/
def PolicyRow.Sound (row : PolicyRow) : Prop :=
  1 ≤ row.version ∧ (row.version = 1 → row.approvedByUserId = none ∧ row.approvedAt = none)

/-- What holds of a call in a phase: the row it has locked is the stored one,
or the one it has inserted. -/
def State.Fits (s : State) (c : Nat) (call : Call) : Phase → Prop
  | .authorized => call.Admin
  | .absent | .inserted => ∀ v, call.op ≠ .approve v
  | .locked row _ => s.lock = some c ∧ call.Admin ∧ row.Sound ∧
      (s.row = some row ∨ s.row = none ∧ row.version = 1 ∧ ∀ v, call.op ≠ .approve v)
  | .done _ => True

structure Inv (s : State) : Prop where
  calls : ∀ c call phase, s.calls c = some (call, phase) → s.Fits c call phase
  pending : ∀ row, s.pending = some row → row.version = 1 ∧ row.Sound
  stored : ∀ row, s.row = some row → row.Sound

theorem State.Fits.frame (h : s.Fits c call phase)
    (hkeeps : s.lock ≠ some c ∨ t.lock = s.lock ∧ t.row = s.row) : t.Fits c call phase := by
  cases phase with
  | locked row created =>
    obtain ⟨hlock, hrow⟩ := hkeeps.resolve_left (not_not.mpr h.1)
    simp only [State.Fits, hlock, hrow]
    exact h
  | authorized | absent | inserted | done => exact h

/-- The step rule: the call `c` moves to a phase, and the others keep lock and row. -/
theorem Inv.move (hs : Inv s) (hcalls : t.calls = update s.calls c (some (call, phase)))
    (hfits : t.Fits c call phase)
    (hothers : ∀ c', c' ≠ c → s.lock ≠ some c' ∨ t.lock = s.lock ∧ t.row = s.row)
    (hpending : ∀ row, t.pending = some row → row.version = 1 ∧ row.Sound)
    (hstored : ∀ row, t.row = some row → row.Sound) : Inv t := by
  refine ⟨fun c' call' phase' hc' => ?_, hpending, hstored⟩
  rw [hcalls] at hc'
  rcases update_some hc' with ⟨rfl, hphase⟩ | ⟨hc, hc'⟩
  · cases hphase
    exact hfits
  · exact (hs.calls c' call' phase' hc').frame (hothers c' hc)

theorem Inv.set (hs : Inv s) (hfits : s.Fits c call phase) : Inv (s.set c call phase) :=
  hs.move rfl (hfits.frame (.inr ⟨rfl, rfl⟩)) (fun _ _ => .inr ⟨rfl, rfl⟩) hs.pending hs.stored

theorem Inv.take (hs : Inv s) (hlock : s.lock = none ∨ s.lock = some c)
    (hfits : (s.take c call row created).Fits c call (.locked row created)) :
    Inv (s.take c call row created) := by
  refine hs.move rfl hfits (fun c' hc => .inl ?_) hs.pending hs.stored
  rcases hlock with hlock | hlock <;> rw [hlock]
  · nofun
  · exact fun h => hc (Option.some.inj h).symm

theorem Inv.close {result} (hs : Inv s) (hlock : s.lock = some c)
    (hcalls : t.calls = (s.close c call result).calls) (hpending : t.pending = none)
    (hstored : ∀ row, t.row = some row → row.Sound) : Inv t := by
  refine hs.move hcalls trivial (fun c' hc => .inl ?_) (fun row hrow => ?_) hstored
  · rw [hlock]
    exact fun h => hc (Option.some.inj h).symm
  · rw [hpending] at hrow
    cases hrow

/-- A step as a change of the stored row: none, a write that nobody has approved,
or an approval by an admin, of the content that is stored. -/
inductive Changes (s : State) (a : Act) (t : State) : Prop where
  | same (row : t.row = s.row)
  | written (version : s.version < t.version) (unapproved : effectiveMode t.row = .alertOnly)
  | approved (c now call v row created) (act : a = .finish c now)
      (locked : s.calls c = some (call, .locked row created)) (op : call.op = .approve v)
      (admin : call.principal.role = .admin) (read : s.row = some row)
      (values : t.row.map PolicyRow.values = some row.values) (version : s.version < t.version)

theorem unapproved (h : row.approvedAt = none) : effectiveMode (some row) = .alertOnly := by
  simp [effectiveMode, BudgetPolicy.effectiveMode, PolicyRow.policy, h]

theorem Commits.sound (h : Commits call row written) (hrow : row.Sound) : written.Sound := by
  obtain ⟨hversion, hfirst⟩ := hrow
  cases h with
  | replayed => exact ⟨hversion, hfirst⟩
  | created first => exact ⟨hversion, fun _ => ⟨rfl, rfl⟩⟩
  | replaced values userId => exact ⟨by simp only; omega, fun _ => ⟨rfl, rfl⟩⟩
  | approved op userId now =>
    refine ⟨by simp only; omega, fun h => ?_⟩
    simp only at h
    omega

theorem commits_changes (hs : Inv s) (hc : s.calls c = some (call, .locked row created))
    (h : Commits call row written) (ht : t.row = some written) : Changes s (.finish c now) t := by
  obtain ⟨-, hadmin, hsound, hrow | ⟨hrow, hversion, hput⟩⟩ := hs.calls c call _ hc
  · have hs₀ : s.version = row.version := by rw [State.version, hrow]; rfl
    have ht₀ : t.version = written.version := by rw [State.version, ht]; rfl
    cases h with
    | replayed => exact .same (ht.trans hrow.symm)
    | created first =>
      obtain ⟨huser, hat⟩ := hsound.2 first
      refine .same ?_
      rw [ht, hrow, ← huser, ← hat]
    | replaced values userId =>
      refine .written ?_ (ht ▸ unapproved rfl)
      simp only [hs₀, ht₀]
      omega
    | approved op userId now =>
      refine .approved c _ call _ row created rfl hc op (hadmin _ op) hrow (by rw [ht]; rfl) ?_
      simp only [hs₀, ht₀]
      omega
  · have hs₀ : s.version = 0 := by rw [State.version, hrow]; rfl
    have ht₀ : t.version = written.version := by rw [State.version, ht]; rfl
    cases h with
    | replayed => exact .written (by omega) (ht ▸ unapproved (hsound.2 hversion).2)
    | created first => exact .written (by simp only [hs₀, ht₀]; omega) (ht ▸ unapproved rfl)
    | replaced values userId =>
      exact .written (by simp only [hs₀, ht₀]; omega) (ht ▸ unapproved rfl)
    | approved op userId now => exact absurd op (hput _)

theorem step_inv (hs : Inv s) (h : step projectId s a = some t) : Inv t ∧ Changes s a t := by
  cases a with
  | begin c call projectExists =>
    simp only [step] at h
    split at h
    · rename_i hauthorize
      cases h
      exact ⟨hs.set (authorize_admin hauthorize), .same rfl⟩
    · cases h
      exact ⟨hs.set trivial, .same rfl⟩
    · cases h
  | read c =>
    simp only [step] at h
    split at h
    · cases h
      refine ⟨hs.set ?_, .same rfl⟩
      unfold Call.missing
      split
      · rename_i hop
        intro v hv
        rw [hop] at hv
        cases hv
      · trivial
      · trivial
    · rename_i hc hrow hlock
      cases h
      exact ⟨hs.take (.inl hlock) ⟨rfl, hs.calls _ _ _ hc, hs.stored _ hrow, .inl hrow⟩, .same rfl⟩
    · cases h
  | insert c =>
    simp only [step] at h
    split at h
    · rename_i hc _
      cases h
      exact ⟨hs.set (hs.calls c _ .absent hc), .same rfl⟩
    · rename_i hc hrow hlock
      obtain ⟨row, hnew, rfl⟩ := Option.map_eq_some_iff.mp h
      refine ⟨hs.move rfl (hs.calls _ _ _ hc) (fun c' _ => .inl (hlock ▸ nofun)) ?_ hs.stored,
        .same rfl⟩
      intro row' hrow'
      cases hrow'
      unfold Call.newRow at hnew
      split at hnew
      · cases hnew
        exact ⟨rfl, Int.le_refl _, fun _ => ⟨rfl, rfl⟩⟩
      · cases hnew
    · cases h
  | reread c =>
    simp only [step] at h
    split at h
    · rename_i hc hrow hpending
      split at h
      · rename_i hlock
        cases h
        obtain ⟨hversion, hsound⟩ := hs.pending _ hpending
        have hput := hs.calls _ _ _ hc
        exact ⟨hs.take (.inr hlock) ⟨rfl, fun v hv => absurd hv (hput v), hsound,
          .inr ⟨hrow, hversion, hput⟩⟩, .same rfl⟩
      · cases h
    · rename_i hc hrow
      split at h
      · rename_i hlock
        cases h
        have hput := hs.calls _ _ _ hc
        exact ⟨hs.take (.inl hlock) ⟨rfl, fun v hv => absurd hv (hput v), hs.stored _ hrow,
          .inl hrow⟩, .same rfl⟩
      · cases h
    · cases h
  | finish c now =>
    simp only [step] at h
    split at h
    · rename_i hc
      obtain ⟨hlock, -, hsound, -⟩ := hs.calls _ _ _ hc
      split at h
      · cases h
        exact ⟨hs.close hlock rfl rfl hs.stored, .same rfl⟩
      · rename_i hdecide
        cases h
        have hcommits := decide_commits hdecide
        refine ⟨hs.close hlock rfl rfl fun written hwritten => ?_,
          commits_changes hs hc hcommits rfl⟩
        cases hwritten
        exact hcommits.sound hsound
    · cases h
  | fail c =>
    simp only [step] at h
    split at h
    · split at h
      · rename_i hlock
        cases h
        exact ⟨hs.close hlock rfl rfl hs.stored, .same rfl⟩
      · cases h
    · cases h

theorem initial_inv : Inv .initial := by
  refine ⟨fun c call phase h => ?_, fun row h => ?_, fun row h => ?_⟩ <;> cases h

theorem run_inv {as} (h : Run (step projectId) Free s as t) (hs : Inv s) : Inv t :=
  h.invariant (fun hs _ hstep => (step_inv hs hstep).1) hs

/-- An effective policy was there before the run, or was approved in it. -/
theorem run_approved {as} (h : Run (step projectId) Free s as t) (hs : Inv s)
    (heffective : effectiveMode t.row = .enforce) : t.row = s.row ∨
      ∃ front a back u v, as = front ++ a :: back ∧ Run (step projectId) Free s front u ∧
        step projectId u a = some v ∧ v.row = t.row ∧
        ∃ c now call n row created, a = .finish c now ∧
          u.calls c = some (call, .locked row created) ∧ call.op = .approve n ∧
          call.principal.role = .admin ∧ u.row = some row ∧
          t.row.map PolicyRow.values = some row.values := by
  induction h with
  | nil s => exact .inl rfl
  | @cons s u t a as guard fires rest ih =>
    obtain ⟨hu, hchanges⟩ := step_inv hs fires
    rcases ih hu heffective with hrow | ⟨front, b, back, w, v, rfl, hrun, hstep, hb⟩
    · cases hchanges with
      | same row => exact .inl (hrow.trans row)
      | written version unapproved =>
        rw [hrow, unapproved] at heffective
        cases heffective
      | approved c now call n row created act locked op admin read values version =>
        exact .inr ⟨[], a, as, s, u, rfl, .nil s, fires, hrow.symm, c, now, call, n, row, created,
          act, locked, op, admin, read, hrow ▸ values⟩
    · exact .inr ⟨a :: front, b, back, w, v, rfl, .cons guard fires hrun, hstep, hb⟩

/-- **Approval binds the content.** An effective policy is as an admin's approval
left it, which read the content that it has; a step leaves the stored row as it is or
increases its version; and a creation that has locked a stored row leaves it. -/
theorem approval_binds {as : List Act} (h : Run (step projectId) Free .initial as s) :
    (effectiveMode s.row = .enforce → ∃ front a back u v, as = front ++ a :: back ∧
      Run (step projectId) Free .initial front u ∧ step projectId u a = some v ∧ v.row = s.row ∧
      ∃ c now call n row created, a = .finish c now ∧
        u.calls c = some (call, .locked row created) ∧ call.op = .approve n ∧
        call.principal.role = .admin ∧ u.row = some row ∧
        s.row.map PolicyRow.values = some row.values) ∧
    (∀ a t, step projectId s a = some t → t.row = s.row ∨ s.version < t.version) ∧
    ∀ c now call id values row created t, s.calls c = some (call, .locked row created) →
      call.op = .put id values none → s.row = some row →
        step projectId s (.finish c now) = some t → t.row = s.row := by
  have hs := run_inv h initial_inv
  refine ⟨fun heffective => ?_, fun a t hstep => ?_, ?_⟩
  · rcases run_approved h initial_inv heffective with hrow | happroved
    · rw [hrow] at heffective
      cases heffective
    · exact happroved
  · cases (step_inv hs hstep).2 with
    | same row => exact .inl row
    | written version unapproved => exact .inr version
    | approved c now call v row created act locked op admin read values version =>
      exact .inr version
  · intro c now call id values row created t hc hop hrow hstep
    simp only [step, hc, Call.decide, hop, or_true, if_true] at hstep
    by_cases hsame : sameCreation row call values
    · obtain ⟨huser, hat⟩ := (hs.stored row hrow).2 hsame.1
      cases created <;> simp only [hsame, not_true, if_false, if_true] at hstep <;> cases hstep
      · exact hrow.symm
      · rw [hrow, ← huser, ← hat]
    · simp only [hsame, not_false_eq_true, if_true] at hstep
      cases hstep
      rfl

def user (id : String) (role : Role) : Principal :=
  { machine := ⟨⟨id⟩, ⟨id⟩⟩, role, projectScope := .allProjects }

def capped : PolicyValues :=
  { mode := .enforce, period := .month, currency := "USD", costLimit := none, tokenLimit := none
    maxActiveLaunches := some 3, reservationCost := none, reservationTokens := none
    unknownCost := .chargeReservation, lateUsage := .holdReservation
    settleAfterSeconds := 3600, alertThresholds := [80, 100] }

def creation : Call := ⟨user "u" .developer, false, .put ⟨"b"⟩ capped none⟩

/-- Two creations of one user, of which the second one is a replay, and an approval. -/
def sampleRun : List Act :=
  [.begin 0 creation true, .begin 1 creation true, .read 0, .read 1, .insert 0, .reread 0,
    .finish 0 5, .insert 1, .reread 1, .finish 1 6,
    .begin 2 ⟨user "a" .admin, false, .approve 1⟩ true, .read 2, .finish 2 7]

theorem approval_binds_sample : ∃ s, Run (step ⟨"p"⟩) Free .initial sampleRun s ∧
    effectiveMode s.row = .enforce ∧ ∃ front a back, sampleRun = front ++ a :: back ∧
      ∃ c now, a = .finish c now := by
  have hrun : ((execWithin (step ⟨"p"⟩) Free .initial sampleRun).any fun s =>
      effectiveMode s.row = .enforce) = true := by decide +kernel
  obtain ⟨s, hs, heffective⟩ := Run.of_any hrun
  have heffective := of_decide_eq_true heffective
  obtain ⟨front, a, back, u, v, heq, -, -, -, c, now, _, _, _, _, hact, -⟩ :=
    (approval_binds hs).1 heffective
  exact ⟨s, hs, heffective, front, a, back, heq, c, now, hact⟩

end StudioOS.Budgets.Approval
