import StudioOS.Base
import StudioOS.Library.Runs

/-!
# Idempotency — Model

`services/idempotency.py` as a transition system. `run_idempotent_dict` touches the table
`idempotency_keys` in single statements, each committed before the next `await`; a REQUEST is a
program counter (`Phase`), and a run interleaves any number of requests with the clock and with
crashes.
-/

namespace StudioOS.Idempotency

open Option Runs

/-- `_PENDING_RECLAIM_SECONDS`. -/
def pendingReclaim : Timestamp := seconds 30

/-- The reads of one loser: `_resolve_existing` reads once, then
`_await_completion` reads until the accumulated `elapsed` (floating
steps of 0.05) reaches 5.0, which takes 101 of them. -/
def pollReads : Nat := 1 + 101

inductive IdempotencyStatus where
  | pending
  | completed
deriving DecidableEq

/-- The pair (`idempotency_key`, `endpoint`) of the unique constraint. -/
structure Slot where
  idempotencyKey : String
  endpoint : String
deriving DecidableEq

/-- `IdempotencyKeyModel`; its key columns are the slot it stands at. -/
structure IdempotencyRow (β : Type*) where
  id : Nat
  requestHash : String
  status : IdempotencyStatus
  responseStatus : Option Nat
  responseBody : Option β
  createdAt : Timestamp
deriving DecidableEq

/-- Where a request stands in `run_idempotent_dict`. -/
inductive Phase (β : Type*) where
  /-- About to build the reservation. -/
  | arrived
  /-- `_reserve`: the INSERT is built with this `created_at`. -/
  | reserving (createdAt : Timestamp)
  /-- Lost the INSERT, about to build the reclaiming UPDATE. -/
  | lost
  /-- `_reclaim_if_abandoned`: the cutoff is computed. -/
  | cutting (cutoff : Timestamp)
  /-- `_reclaim_if_abandoned`: the UPDATE is built. -/
  | reclaiming (cutoff createdAt : Timestamp)
  /-- `_resolve_existing`, with this many reads left. -/
  | awaiting (reads : Nat)
  /-- Holds the reservation; `create()` runs. -/
  | creating
  /-- `create()` has committed its effect. -/
  | created (result : β)
  /-- `_complete`: the row is loaded, the UPDATE is not sent. -/
  | completing (result : β) (row : IdempotencyRow β)
  /-- `create()` raised; `_release` is about to roll back and read. -/
  | raised
  /-- `_release`: the row is loaded, the DELETE is not sent. -/
  | releasing (row : IdempotencyRow β)
  | answered (result : β)
  | replayed (body : Option β)
  /-- `409 idempotency_key_payload_mismatch`. -/
  | payloadMismatch
  /-- `409 idempotency_key_in_progress`. -/
  | inProgress
  /-- Ended by an exception: of `create()`, or of a flush whose row is gone. -/
  | failed
  | crashed

structure Request (β : Type*) where
  slot : Slot
  requestHash : String
  responseStatus : Nat
  phase : Phase β

/-- One committed business effect of `create()`. -/
structure Effect (ρ β : Type*) where
  request : ρ
  slot : Slot
  requestHash : String
  result : β

structure State (ρ β : Type*) where
  clock : Timestamp
  nextId : Nat
  table : Slot → Option (IdempotencyRow β)
  requests : ρ → Option (Request β)
  effects : List (Effect ρ β)

/-- An empty table and no request. -/
def State.initial (ρ β : Type*) (clock : Timestamp) : State ρ β :=
  { clock := clock, nextId := 0, table := fun _ => none, requests := fun _ => none, effects := [] }

variable {ρ β : Type*}

def State.setRow (s : State ρ β) (k : Slot) (row : Option (IdempotencyRow β)) : State ρ β :=
  { s with table := Function.update s.table k row }

@[simp] theorem State.setRow_table_self (s : State ρ β) (k)
    (row) : (s.setRow k row).table k = row :=
  Function.update_self ..

theorem State.setRow_table_ne (s : State ρ β) {k k'} (row)
    (h : k' ≠ k) : (s.setRow k row).table k' = s.table k' :=
  Function.update_of_ne h ..

def State.addEffect (s : State ρ β) (e : Effect ρ β) : State ρ β :=
  { s with effects := s.effects ++ [e] }

/-- Request `r` is at the slot `k`, in a phase that satisfies `p`. -/
def State.inPhase (s : State ρ β) (k : Slot) (p : Phase β → Bool) (r : ρ) : Bool :=
  match s.requests r with
  | some q => q.slot = k && p q.phase
  | none => false

theorem State.inPhase_iff {s : State ρ β} {k p r} :
    s.inPhase k p r = true ↔ ∃ q, s.requests r = some q ∧ q.slot = k ∧ p q.phase = true := by
  unfold inPhase
  cases s.requests r <;> simp

variable [DecidableEq ρ]

def State.setPhase (s : State ρ β) (r : ρ) (q : Request β) (p : Phase β) : State ρ β :=
  { s with requests := Function.update s.requests r (some { q with phase := p }) }

@[simp] theorem State.setPhase_table (s : State ρ β) (r) (q) (p) :
    (s.setPhase r q p).table = s.table := rfl

@[simp] theorem State.setPhase_requests_self (s : State ρ β) (r) (q)
    (p) : (s.setPhase r q p).requests r = some { q with phase := p } :=
  Function.update_self ..

theorem State.setPhase_requests_ne (s : State ρ β) {r r'} (q) (p)
    (h : r' ≠ r) : (s.setPhase r q p).requests r' = s.requests r' :=
  Function.update_of_ne h ..

/-! ## The statements -/

/-- `datetime.now(UTC)`, wherever the next statement needs a reading. -/
def State.readClock (s : State ρ β) (r : ρ) (q : Request β) : Option (State ρ β) :=
  match q.phase with
  | .arrived => some (s.setPhase r q (.reserving s.clock))
  | .lost => some (s.setPhase r q (.cutting (s.clock - pendingReclaim)))
  | .cutting cutoff => some (s.setPhase r q (.reclaiming cutoff s.clock))
  | _ => none

/-- `_reserve`: `INSERT ... ON CONFLICT DO NOTHING RETURNING id`. -/
def State.reserve (s : State ρ β) (r : ρ) (q : Request β) : Option (State ρ β) :=
  match q.phase with
  | .reserving createdAt =>
    match s.table q.slot with
    | none =>
      let row : IdempotencyRow β :=
        { id := s.nextId, requestHash := q.requestHash, status := .pending,
          responseStatus := none, responseBody := none, createdAt := createdAt }
      let s' := { s with nextId := s.nextId + 1 }
      some ((s'.setRow q.slot (some row)).setPhase r q .creating)
    | some _ => some (s.setPhase r q .lost)
  | _ => none

/-- The `WHERE` of the reclaiming UPDATE. -/
def IdempotencyRow.abandoned (row : IdempotencyRow β) (cutoff : Timestamp) : Prop :=
  row.status = .pending ∧ row.createdAt < cutoff

instance (row : IdempotencyRow β) (cutoff : Timestamp) : Decidable (row.abandoned cutoff) :=
  inferInstanceAs (Decidable (_ ∧ _))

/-- `_reclaim_if_abandoned`: the UPDATE rewrites `request_hash` and
`created_at` in place. -/
def State.reclaim (s : State ρ β) (r : ρ) (q : Request β) : Option (State ρ β) :=
  match q.phase with
  | .reclaiming cutoff createdAt =>
    match s.table q.slot with
    | some row =>
      if row.abandoned cutoff then
        let row' := { row with requestHash := q.requestHash, createdAt := createdAt }
        some ((s.setRow q.slot (some row')).setPhase r q .creating)
      else some (s.setPhase r q (.awaiting pollReads))
    | none => some (s.setPhase r q (.awaiting pollReads))
  | _ => none

/-- One read of `_resolve_existing` / `_await_completion`, and the answer
it leads to: the stored body, the payload mismatch, another read, or the
timeout. -/
def State.poll (s : State ρ β) (r : ρ) (q : Request β) : Option (State ρ β) :=
  match q.phase with
  | .awaiting 0 => some (s.setPhase r q .inProgress)
  | .awaiting (reads + 1) =>
    match s.table q.slot with
    | some row =>
      if row.status = .completed then
        if row.requestHash = q.requestHash then
          some (s.setPhase r q (.replayed row.responseBody))
        else some (s.setPhase r q .payloadMismatch)
      else some (s.setPhase r q (.awaiting reads))
    | none => some (s.setPhase r q (.awaiting reads))
  | _ => none

/-- `create()` commits its business effect. -/
def State.commitEffect (s : State ρ β) (r : ρ) (q : Request β) (result : β) : Option (State ρ β) :=
  match q.phase with
  | .creating =>
    some ((s.addEffect ⟨r, q.slot, q.requestHash, result⟩).setPhase r q (.created result))
  | _ => none

/-- `create()` raises, before its commit or after it. -/
def State.raise (s : State ρ β) (r : ρ) (q : Request β) : Option (State ρ β) :=
  match q.phase with
  | .creating | .created _ => some (s.setPhase r q .raised)
  | _ => none

/-- `_complete`: the SELECT. Without a row it returns at once. -/
def State.loadRow (s : State ρ β) (r : ρ) (q : Request β) : Option (State ρ β) :=
  match q.phase with
  | .created result =>
    match s.table q.slot with
    | none => some (s.setPhase r q (.answered result))
    | some row => some (s.setPhase r q (.completing result row))
  | _ => none

/-- The row object of `_complete` after its three assignments. -/
def IdempotencyRow.assigned (row : IdempotencyRow β) (responseStatus : Nat) (result : β) :
    IdempotencyRow β :=
  { row with status := .completed, responseStatus := some responseStatus,
             responseBody := some result }

variable [DecidableEq β]

/-- What the flush of `new`, loaded as `old`, leaves of the stored row. -/
def IdempotencyRow.flush (old new current : IdempotencyRow β) : IdempotencyRow β :=
  { current with
    status := flushed old.status new.status current.status
    responseStatus := flushed old.responseStatus new.responseStatus current.responseStatus
    responseBody := flushed old.responseBody new.responseBody current.responseBody }

/-- `_complete`: the UPDATE by primary key and the commit. An object
without a changed attribute emits nothing; an UPDATE that matches no row
is a `StaleDataError`. -/
def State.complete (s : State ρ β) (r : ρ) (q : Request β) : Option (State ρ β) :=
  match q.phase with
  | .completing result old =>
    let new := old.assigned q.responseStatus result
    if new = old then some (s.setPhase r q (.answered result))
    else
      match s.table q.slot with
      | some row =>
        if row.id = old.id then
          some ((s.setRow q.slot (some (old.flush new row))).setPhase r q (.answered result))
        else some (s.setPhase r q .failed)
      | none => some (s.setPhase r q .failed)
  | _ => none

/-- `_release`: rollback, then the SELECT. -/
def State.rollback (s : State ρ β) (r : ρ) (q : Request β) : Option (State ρ β) :=
  match q.phase with
  | .raised =>
    match s.table q.slot with
    | some row =>
      if row.status = .pending then some (s.setPhase r q (.releasing row))
      else some (s.setPhase r q .failed)
    | none => some (s.setPhase r q .failed)
  | _ => none

/-- `_release`: the DELETE by primary key and the commit. -/
def State.delete (s : State ρ β) (r : ρ) (q : Request β) : Option (State ρ β) :=
  match q.phase with
  | .releasing old =>
    match s.table q.slot with
    | some row =>
      if row.id = old.id then some ((s.setRow q.slot none).setPhase r q .failed)
      else some (s.setPhase r q .failed)
    | none => some (s.setPhase r q .failed)
  | _ => none

inductive Act (ρ β : Type*) where
  | advance (d : Timestamp)
  | arrive (r : ρ) (slot : Slot) (requestHash : String) (responseStatus : Nat)
  | readClock (r : ρ)
  | reserve (r : ρ)
  | reclaim (r : ρ)
  | poll (r : ρ)
  | commitEffect (r : ρ) (result : β)
  | raise (r : ρ)
  | loadRow (r : ρ)
  | complete (r : ρ)
  | rollback (r : ρ)
  | delete (r : ρ)
  | crash (r : ρ)

def step (s : State ρ β) : Act ρ β → Option (State ρ β)
  | .advance d => some { s with clock := s.clock + d }
  | .arrive r slot requestHash responseStatus =>
    match s.requests r with
    | none => some (s.setPhase r ⟨slot, requestHash, responseStatus, .arrived⟩ .arrived)
    | some _ => none
  | .readClock r => (s.requests r).bind (s.readClock r)
  | .reserve r => (s.requests r).bind (s.reserve r)
  | .reclaim r => (s.requests r).bind (s.reclaim r)
  | .poll r => (s.requests r).bind (s.poll r)
  | .commitEffect r result => (s.requests r).bind (s.commitEffect r · result)
  | .raise r => (s.requests r).bind (s.raise r)
  | .loadRow r => (s.requests r).bind (s.loadRow r)
  | .complete r => (s.requests r).bind (s.complete r)
  | .rollback r => (s.requests r).bind (s.rollback r)
  | .delete r => (s.requests r).bind (s.delete r)
  | .crash r => (s.requests r).bind fun q => some (s.setPhase r q .crashed)

/-- Phases of a request that holds no reservation and replays nothing. -/
def Phase.outside : Phase β → Bool
  | .creating | .created _ | .completing _ _ | .raised | .releasing _ | .replayed _ => false
  | _ => true

/-- The twelve things one step can be, with what the code checked before
it. Every invariant of the protocol is a case analysis on this. -/
inductive Moves (s : State ρ β) : Act ρ β → State ρ β → Prop where
  | tick (d) : Moves s (.advance d) { s with clock := s.clock + d }
  | arrive (r q) (fresh : s.requests r = none) :
      Moves s (.arrive r q.slot q.requestHash q.responseStatus) (s.setPhase r q .arrived)
  | leave (a r q p) (hq : s.requests r = some q)
      (hp : p.outside = true) : Moves s a (s.setPhase r q p)
  | insert (r q createdAt) (hq : s.requests r = some q) (free : s.table q.slot = none) :
      Moves s (.reserve r)
        ((({ s with nextId := s.nextId + 1 }).setRow q.slot (some
          ⟨s.nextId, q.requestHash, .pending, none, none, createdAt⟩)).setPhase r q .creating)
  | takeOver (r q row cutoff createdAt) (hq : s.requests r = some q)
      (hp : q.phase = .reclaiming cutoff createdAt) (hrow : s.table q.slot = some row)
      (old : row.abandoned cutoff) :
      Moves s (.reclaim r)
        ((s.setRow q.slot (some { row with requestHash := q.requestHash,
                                           createdAt := createdAt })).setPhase r q .creating)
  | replay (r q row) (hq : s.requests r = some q) (hrow : s.table q.slot = some row)
      (done : row.status = .completed) (hash : row.requestHash = q.requestHash) :
      Moves s (.poll r) (s.setPhase r q (.replayed row.responseBody))
  | effect (r q result) (hq : s.requests r = some q) (hp : q.phase = .creating) :
      Moves s (.commitEffect r result)
        ((s.addEffect ⟨r, q.slot, q.requestHash, result⟩).setPhase r q (.created result))
  | raises (r q) (hq : s.requests r = some q)
      (hp : q.phase = .creating ∨ ∃ result, q.phase = .created result) :
      Moves s (.raise r) (s.setPhase r q .raised)
  | load (r q result row) (hq : s.requests r = some q) (hp : q.phase = .created result)
      (hrow : s.table q.slot = some row) :
      Moves s (.loadRow r) (s.setPhase r q (.completing result row))
  | finish (r q result old row) (hq : s.requests r = some q) (hp : q.phase = .completing result old)
      (hrow : s.table q.slot = some row) (same : row.id = old.id) :
      Moves s (.complete r)
        ((s.setRow q.slot (some (old.flush (old.assigned q.responseStatus result) row))).setPhase
          r q (.answered result))
  | unwind (r q row) (hq : s.requests r = some q) (hp : q.phase = .raised)
      (hrow : s.table q.slot = some row) (pending : row.status = .pending) :
      Moves s (.rollback r) (s.setPhase r q (.releasing row))
  | drop (r q old row) (hq : s.requests r = some q) (hp : q.phase = .releasing old)
      (hrow : s.table q.slot = some row) (same : row.id = old.id) :
      Moves s (.delete r) ((s.setRow q.slot none).setPhase r q .failed)

theorem step_moves {s t : State ρ β} {a : Act ρ β} (h : step s a = some t) : Moves s a t := by
  cases a with
  | advance d =>
    cases h
    exact .tick d
  | arrive r slot requestHash responseStatus =>
    simp only [step] at h
    split at h
    · rename_i fresh
      cases h
      exact .arrive r ⟨slot, requestHash, responseStatus, .arrived⟩ fresh
    · cases h
  | readClock r =>
    obtain ⟨q, hq, h⟩ := bind_eq_some_iff.mp h
    simp only [State.readClock] at h
    split at h
    · cases h
      exact .leave _ r q _ hq rfl
    · cases h
      exact .leave _ r q _ hq rfl
    · cases h
      exact .leave _ r q _ hq rfl
    · cases h
  | reserve r =>
    obtain ⟨q, hq, h⟩ := bind_eq_some_iff.mp h
    simp only [State.reserve] at h
    split at h
    · rename_i createdAt hp
      split at h
      · rename_i free
        cases h
        exact .insert r q createdAt hq free
      · cases h
        exact .leave _ r q _ hq rfl
    · cases h
  | reclaim r =>
    obtain ⟨q, hq, h⟩ := bind_eq_some_iff.mp h
    simp only [State.reclaim] at h
    split at h
    · rename_i cutoff createdAt hp
      split at h
      · rename_i row hrow
        split at h
        · rename_i old
          cases h
          exact .takeOver r q row cutoff createdAt hq hp hrow old
        · cases h
          exact .leave _ r q _ hq rfl
      · cases h
        exact .leave _ r q _ hq rfl
    · cases h
  | poll r =>
    obtain ⟨q, hq, h⟩ := bind_eq_some_iff.mp h
    simp only [State.poll] at h
    split at h
    · cases h
      exact .leave _ r q _ hq rfl
    · split at h
      · rename_i row hrow
        split at h
        · rename_i done
          split at h
          · rename_i hash
            cases h
            exact .replay r q row hq hrow done hash
          · cases h
            exact .leave _ r q _ hq rfl
        · cases h
          exact .leave _ r q _ hq rfl
      · cases h
        exact .leave _ r q _ hq rfl
    · cases h
  | commitEffect r result =>
    obtain ⟨q, hq, h⟩ := bind_eq_some_iff.mp h
    simp only [State.commitEffect] at h
    split at h
    · rename_i hp
      cases h
      exact .effect r q result hq hp
    · cases h
  | raise r =>
    obtain ⟨q, hq, h⟩ := bind_eq_some_iff.mp h
    simp only [State.raise] at h
    split at h
    · rename_i hp
      cases h
      exact .raises r q hq (.inl hp)
    · rename_i result hp
      cases h
      exact .raises r q hq (.inr ⟨result, hp⟩)
    · cases h
  | loadRow r =>
    obtain ⟨q, hq, h⟩ := bind_eq_some_iff.mp h
    simp only [State.loadRow] at h
    split at h
    · rename_i result hp
      split at h
      · cases h
        exact .leave _ r q _ hq rfl
      · rename_i row hrow
        cases h
        exact .load r q result row hq hp hrow
    · cases h
  | complete r =>
    obtain ⟨q, hq, h⟩ := bind_eq_some_iff.mp h
    simp only [State.complete] at h
    split at h
    · rename_i result old hp
      split at h
      · cases h
        exact .leave _ r q _ hq rfl
      split at h
      · rename_i row hrow
        split at h
        · rename_i same
          cases h
          exact .finish r q result old row hq hp hrow same
        · cases h
          exact .leave _ r q _ hq rfl
      · cases h
        exact .leave _ r q _ hq rfl
    · cases h
  | rollback r =>
    obtain ⟨q, hq, h⟩ := bind_eq_some_iff.mp h
    simp only [State.rollback] at h
    split at h
    · rename_i hp
      split at h
      · rename_i row hrow
        split at h
        · rename_i pending
          cases h
          exact .unwind r q row hq hp hrow pending
        · cases h
          exact .leave _ r q _ hq rfl
      · cases h
        exact .leave _ r q _ hq rfl
    · cases h
  | delete r =>
    obtain ⟨q, hq, h⟩ := bind_eq_some_iff.mp h
    simp only [State.delete] at h
    split at h
    · rename_i old hp
      split at h
      · rename_i row hrow
        split at h
        · rename_i same
          cases h
          exact .drop r q old row hq hp hrow same
        · cases h
          exact .leave _ r q _ hq rfl
      · cases h
        exact .leave _ r q _ hq rfl
    · cases h
  | crash r =>
    obtain ⟨q, hq, h⟩ := bind_eq_some_iff.mp h
    cases h
    exact .leave _ r q _ hq rfl

end StudioOS.Idempotency
