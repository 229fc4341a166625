import Mathlib.Data.Fintype.Basic
import StudioOS.Idempotency.Model

/-!
# Idempotency — AtMostOnce

How often the business effect of one (key, endpoint) is committed. The reservation carries no owner
token: `_reclaim_if_abandoned` takes over a `pending` row by its age alone, whether its owner died,
is merely slow, or died after its `create()` committed.
-/

namespace StudioOS.Idempotency

open Runs

variable {ρ β : Type*}

/-- The business effects committed for the slot `k`. -/
def State.effectsAt (s : State ρ β) (k : Slot) : List (Effect ρ β) :=
  s.effects.filter fun e => e.slot = k

/-- `create()` runs and has not committed. -/
def Phase.running : Phase β → Bool
  | .creating => true
  | _ => false

/-- `_release` is under way. -/
def Phase.unwinding : Phase β → Bool
  | .raised | .releasing _ => true
  | _ => false

variable {p : Phase β} {s : State ρ β} {r : ρ} {q : Request β} {row : IdempotencyRow β}
  {cutoff createdAt : Timestamp} {k : Slot}

theorem Phase.not_running_of_outside (h : p.outside = true) : p.running = false := by
  cases p <;> first | rfl | cases h

theorem Phase.not_unwinding_of_outside (h : p.outside = true) : p.unwinding = false := by
  cases p <;> first | rfl | cases h

/-- The slot whose row the next UPDATE of `r` takes over, if it matches. -/
def State.takeoverOf (s : State ρ β) (r : ρ) : Option Slot :=
  match s.requests r with
  | some ⟨slot, _, _, .reclaiming cutoff _⟩ =>
    match s.table slot with
    | some row => if row.abandoned cutoff then some slot else none
    | none => none
  | _ => none

theorem State.takeoverOf_eq (hq : s.requests r = some q)
    (hp : q.phase = .reclaiming cutoff createdAt) (hrow : s.table q.slot = some row)
    (old : row.abandoned cutoff) : s.takeoverOf r = some q.slot := by
  obtain ⟨slot, requestHash, responseStatus, phase⟩ := q
  subst hp
  simp [takeoverOf, hq, hrow, if_pos old]

/-- No `create()` raises, and a takeover happens only when the former
owner left no effect and no other `create()` of the slot is running. -/
def OwnerLeftNoEffect (s : State ρ β) : Act ρ β → Prop
  | .raise _ => False
  | .reclaim r => ∀ k ∈ s.takeoverOf r,
      s.effectsAt k = [] ∧ ∀ r', s.inPhase k Phase.running r' = false
  | _ => True

instance [Fintype ρ] (s : State ρ β) : (a : Act ρ β) → Decidable (OwnerLeftNoEffect s a)
  | .raise _ => .isFalse id
  | .reclaim r => inferInstanceAs (Decidable (∀ k ∈ s.takeoverOf r,
      s.effectsAt k = [] ∧ ∀ r', s.inPhase k Phase.running r' = false))
  | .advance _ | .arrive .. | .readClock _ | .reserve _ | .poll _ | .commitEffect .. | .loadRow _
  | .complete _ | .rollback _ | .delete _ | .crash _ => .isTrue trivial

theorem OwnerLeftNoEffect.takeOver

    (h : OwnerLeftNoEffect s (.reclaim r)) (hq : s.requests r = some q)
    (hp : q.phase = .reclaiming cutoff createdAt) (hrow : s.table q.slot = some row)
    (old : row.abandoned cutoff) :
    s.effectsAt q.slot = [] ∧ ∀ r', s.inPhase q.slot Phase.running r' = false :=
  h q.slot (State.takeoverOf_eq hq hp hrow old)

theorem State.effectsAt_addEffect (s : State ρ β) (e) (k) :
    (s.addEffect e).effectsAt k = s.effectsAt k ++ if e.slot = k then [e] else [] := by
  by_cases h : e.slot = k <;> simp [effectsAt, addEffect, h]

@[simp] theorem State.inPhase_setRow (s : State ρ β) (k k') (row p) (r) :
    (s.setRow k row).inPhase k' p r = s.inPhase k' p r := rfl

variable [DecidableEq ρ]

@[simp] theorem State.effectsAt_setPhase (s : State ρ β) (r) (q) (p)
    (k) : (s.setPhase r q p).effectsAt k = s.effectsAt k := rfl

theorem State.inPhase_setPhase (s : State ρ β) (r r') (q) (p) (k)
    (test) : (s.setPhase r q p).inPhase k test r' =
      if r' = r then decide (q.slot = k) && test p else s.inPhase k test r' := by
  by_cases h : r' = r
  · subst h
    simp [inPhase]
  · simp [inPhase, setPhase_requests_ne s q p h, h]

theorem State.inPhase_of_setPhase {r' test} (hp : test p = false)
    (h : (s.setPhase r q p).inPhase k test r' = true) : s.inPhase k test r' = true := by
  rw [inPhase_setPhase] at h
  split at h
  · simp [hp] at h
  · exact h

/-! ## The invariant -/

/-- **The reservation invariant**: a free slot carries no running
`create()` and no effect, a running `create()` is alone at its slot and
comes before its effect, and nothing is being released. -/
structure OnceInv (s : State ρ β) : Prop where
  free : ∀ k, s.table k = none → s.effectsAt k = [] ∧ ∀ r, s.inPhase k Phase.running r = false
  running : ∀ k r, s.inPhase k Phase.running r = true → s.effectsAt k = []
  unique : ∀ k r r', s.inPhase k Phase.running r = true → s.inPhase k Phase.running r' = true →
    r = r'
  once : ∀ k, (s.effectsAt k).length ≤ 1
  kept : ∀ k r, s.inPhase k Phase.unwinding r = false

omit [DecidableEq ρ] in
theorem onceInv_initial (clock) : OnceInv (State.initial ρ β clock) where
  free := fun _ _ => ⟨rfl, fun _ => rfl⟩
  running := fun _ _ h => by cases h
  unique := fun _ _ _ h _ => by cases h
  once := fun _ => Nat.zero_le _
  kept := fun _ _ => rfl

theorem OnceInv.setPhase (hs : OnceInv s) (r) (q) (hr : p.running = false)
    (hu : p.unwinding = false) : OnceInv (s.setPhase r q p) where
  free := fun k hk => by
    obtain ⟨he, hn⟩ := hs.free k hk
    refine ⟨he, fun r' => ?_⟩
    by_contra h
    have := State.inPhase_of_setPhase hr (Bool.not_eq_false _ ▸ h)
    rw [hn r'] at this
    cases this
  running := fun k r' h => hs.running k r' (State.inPhase_of_setPhase hr h)
  unique := fun k r₁ r₂ h₁ h₂ =>
    hs.unique k r₁ r₂ (State.inPhase_of_setPhase hr h₁) (State.inPhase_of_setPhase hr h₂)
  once := hs.once
  kept := fun k r' => by
    by_contra h
    have := State.inPhase_of_setPhase hu (Bool.not_eq_false _ ▸ h)
    rw [hs.kept k r'] at this
    cases this

/-- The request `r` starts `create()` at a slot where nothing runs and
nothing was committed, over a row it has just written. -/
theorem OnceInv.starts (hs : OnceInv s) (r) (q row) (he : s.effectsAt q.slot = [])
    (hn : ∀ r', s.inPhase q.slot Phase.running r' = false) :
    OnceInv ((s.setRow q.slot (some row)).setPhase r q .creating) where
  free := fun k hk => by
    by_cases hkq : k = q.slot
    · subst hkq
      simp at hk
    have hk' : s.table k = none := by
      simpa [State.setRow_table_ne s _ hkq] using hk
    obtain ⟨he', hn'⟩ := hs.free k hk'
    refine ⟨he', fun r' => ?_⟩
    rw [State.inPhase_setPhase]
    split
    · simp [Ne.symm hkq]
    · exact hn' r'
  running := fun k r' h => by
    rw [State.inPhase_setPhase] at h
    split at h
    · have hk : q.slot = k := by simpa [Phase.running] using h
      subst hk
      exact he
    · exact hs.running k r' h
  unique := fun k r₁ r₂ h₁ h₂ => by
    by_cases hk : k = q.slot
    · -- at this slot only `r` runs
      subst hk
      have only : ∀ r', ((s.setRow q.slot (some row)).setPhase r q .creating).inPhase q.slot
          Phase.running r' = true → r' = r := by
        intro r' h
        rw [State.inPhase_setPhase] at h
        split at h
        · assumption
        · rw [State.inPhase_setRow, hn r'] at h
          cases h
      rw [only r₁ h₁, only r₂ h₂]
    · have other : ∀ r', ((s.setRow q.slot (some row)).setPhase r q .creating).inPhase k
          Phase.running r' = true → s.inPhase k Phase.running r' = true := by
        intro r' h
        rw [State.inPhase_setPhase] at h
        split at h
        · simp [Ne.symm hk] at h
        · exact h
      exact hs.unique k r₁ r₂ (other r₁ h₁) (other r₂ h₂)
  once := hs.once
  kept := fun k r' => by
    rw [State.inPhase_setPhase]
    split
    · simp [Phase.unwinding]
    · exact hs.kept k r'

theorem OnceInv.commits (hs : OnceInv s) (result) (hq : s.requests r = some q)
    (hp : q.phase = .creating) :
    OnceInv ((s.addEffect ⟨r, q.slot, q.requestHash, result⟩).setPhase r q (.created result)) where
  free := fun k hk => by
    obtain ⟨he, hn⟩ := hs.free k hk
    have hkq : q.slot ≠ k := by
      rintro rfl
      have := hn r
      simp [State.inPhase, hq, hp, Phase.running] at this
    refine ⟨by simp [State.effectsAt_addEffect, hkq, he], fun r' => ?_⟩
    rw [State.inPhase_setPhase]
    split
    · simp [Phase.running]
    · exact hn r'
  running := fun k r' h => by
    rw [State.inPhase_setPhase] at h
    split at h
    · simp [Phase.running] at h
    rename_i hne
    have hk : q.slot ≠ k := by
      rintro rfl
      exact hne (hs.unique q.slot r' r h (State.inPhase_iff.mpr ⟨q, hq, rfl, by rw [hp]; rfl⟩))
    simpa [State.effectsAt_addEffect, hk] using hs.running k r' h
  unique := fun k r₁ r₂ h₁ h₂ =>
    hs.unique k r₁ r₂ (State.inPhase_of_setPhase rfl h₁) (State.inPhase_of_setPhase rfl h₂)
  once := fun k => by
    rw [State.effectsAt_setPhase, State.effectsAt_addEffect]
    split
    · rename_i hk
      have := hs.running k r (State.inPhase_iff.mpr ⟨q, hq, hk, by rw [hp]; rfl⟩)
      simp [this]
    · simpa using hs.once k
  kept := fun k r' => by
    rw [State.inPhase_setPhase]
    split
    · simp [Phase.unwinding]
    · exact hs.kept k r'

omit [DecidableEq ρ] in
theorem OnceInv.setRow (hs : OnceInv s) (row row')
    (hk : s.table k = some row) : OnceInv (s.setRow k (some row')) where
  free := fun k' hk' => by
    by_cases h : k' = k
    · subst h
      simp at hk'
    · rw [State.setRow_table_ne s _ h] at hk'
      exact hs.free k' hk'
  running := hs.running
  unique := hs.unique
  once := hs.once
  kept := hs.kept

theorem onceInv_step [DecidableEq β] {t a} (hs : OnceInv s) (hg : OwnerLeftNoEffect s a)
    (h : step s a = some t) : OnceInv t := by
  cases step_moves h with
  | tick d => exact ⟨hs.free, hs.running, hs.unique, hs.once, hs.kept⟩
  | arrive r q fresh => exact hs.setPhase r q rfl rfl
  | leave _ r q p hq hp =>
    exact hs.setPhase r q (Phase.not_running_of_outside hp) (Phase.not_unwinding_of_outside hp)
  | insert r q createdAt hq free =>
    obtain ⟨he, hn⟩ := hs.free q.slot free
    have hs' : OnceInv { s with nextId := s.nextId + 1 } :=
      ⟨hs.free, hs.running, hs.unique, hs.once, hs.kept⟩
    exact hs'.starts r q _ he hn
  | takeOver r q row cutoff createdAt hq hp hrow old =>
    obtain ⟨he, hn⟩ := hg.takeOver hq hp hrow old
    exact hs.starts r q _ he hn
  | replay r q row hq hrow done hash => exact hs.setPhase r q rfl rfl
  | effect r q result hq hp => exact hs.commits result hq hp
  | raises r q hq hp => exact hg.elim
  | load r q result row hq hp hrow => exact hs.setPhase r q rfl rfl
  | finish r q result old row hq hp hrow same => exact (hs.setRow row _ hrow).setPhase r q rfl rfl
  | unwind r q row hq hp hrow pending =>
    have := hs.kept q.slot r
    simp [State.inPhase, hq, hp, Phase.unwinding] at this
  | drop r q old row hq hp hrow same =>
    have := hs.kept q.slot r
    simp [State.inPhase, hq, hp, Phase.unwinding] at this

/-- **At most one effect**: in every run in which no `create()` raises and every takeover finds the
former owner gone before its effect, a (key, endpoint) has its effect committed at most once. -/
theorem create_effect_at_most_once [DecidableEq β] {clock : Timestamp} {as : List (Act ρ β)}
    {s : State ρ β} (h : Run step OwnerLeftNoEffect (State.initial ρ β clock) as s) (k : Slot) :
    (s.effectsAt k).length ≤ 1 :=
  (h.invariant (fun hs hg hst => onceInv_step hs hg hst) (onceInv_initial clock)).once k

/-- The key and endpoint of the runs below. -/
def sampleSlot : Slot := ⟨"7f1c", "POST /tasks"⟩

/-- A request comes in and sends its INSERT. -/
def reserves (r : ρ) (requestHash : String) : List (Act ρ Nat) :=
  [.arrive r sampleSlot requestHash 201, .readClock r, .reserve r]

/-- A request comes in 31 s later, loses the INSERT and takes the
reservation over. -/
def takesOver (r : ρ) (requestHash : String) : List (Act ρ Nat) :=
  .advance (seconds 31) :: reserves r requestHash ++ [.readClock r, .readClock r, .reclaim r]

/-- The former owner is gone before its `create()` committed. -/
def takenOverOnce : List (Act Bool Nat) :=
  reserves false "h" ++ [.crash false] ++ takesOver true "h" ++ [.commitEffect true 8]

theorem create_effect_at_most_once_taken_over :
    ∃ s, Run step OwnerLeftNoEffect (State.initial Bool Nat 0) takenOverOnce s ∧
      s.effectsAt sampleSlot = [⟨true, sampleSlot, "h", 8⟩] ∧
      (s.effectsAt sampleSlot).length ≤ 1 := by
  obtain ⟨s, h, he⟩ : ∃ s, Run step OwnerLeftNoEffect (State.initial Bool Nat 0) takenOverOnce s ∧
      s.effectsAt sampleSlot = [⟨true, sampleSlot, "h", 8⟩] :=
    ⟨_, Run.of_execWithin rfl, rfl⟩
  exact ⟨s, h, he, create_effect_at_most_once h sampleSlot⟩

/-- The guard of the runs in which no `create()` raises. -/
def CreateNeverRaises (_ : State ρ β) : Act ρ β → Prop
  | .raise _ => False
  | _ => True

instance (s : State ρ β) : (a : Act ρ β) → Decidable (CreateNeverRaises s a)
  | .raise _ => .isFalse id
  | .advance _ | .arrive .. | .readClock _ | .reserve _ | .reclaim _ | .poll _ | .commitEffect ..
  | .loadRow _ | .complete _ | .rollback _ | .delete _ | .crash _ => .isTrue trivial

/-- The owner dies after `create()` committed and before `_complete`: its
row still reads `pending`, and 31 s later a retry of the same request
commits the effect again. -/
theorem taken_over_twice : ∃ s, Run step CreateNeverRaises (State.initial Bool Nat 0)
        (reserves false "h" ++ [.commitEffect false 7, .crash false] ++ takesOver true "h" ++
          [.commitEffect true 8]) s ∧ (s.effectsAt sampleSlot).length = 2 :=
  ⟨_, Run.of_execWithin rfl, rfl⟩

end StudioOS.Idempotency
