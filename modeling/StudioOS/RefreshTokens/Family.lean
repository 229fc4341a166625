import StudioOS.Library.Runs
import StudioOS.Library.Keyed
import StudioOS.RefreshTokens.Model

/-!
# Family — what holds of a family of refresh tokens

A family has at most one token that is not consumed, and no token outlives the family. A family
whose last token is revoked with no rotation on its way is dead for good; a revocation leaves it so,
when no rotation came between its snapshot and its locks.
-/

namespace StudioOS.RefreshTokens

open List Option Runs

variable {settings : Settings} {s t : State} {act : Act}

variable {c : Nat} {k k' : Caller} {id : TokenId} {row : TokenRow} {absolute : Int}

/-! ## What a step does -/

/-- A phase that has neither consumed nor begun to revoke. -/
def Phase.idle : Phase → Bool
  | .start | .unconsumable | .condemned _ | .done => true
  | .consumed _ | .issuing _ | .revoking .. => false

/-- The steps of the transactions. -/
inductive Fires (settings : Settings) (s : State) : Act → State → Prop where
  | begin {op secret now} :
      Fires settings s (.begin op secret now) { s with callers := s.callers ++
        [{ op := op, secret := secret, now := now, phase := .start, consumedId := none,
           revoked := [] }] }
  | move {act c k phase} (hk : s.callers[c]? = some k)
      (hidle : phase.idle) : Fires settings s act (s.put c { k with phase := phase })
  | consume {c : Nat} {k row} (hk : s.callers[c]? = some k) (hconsumes : s.consumes k)
      (hrow : s.row k.secret = some row) (hconsumable : row.consumable k.now)
      (hfree : s.locks row.id = none) :
      Fires settings s (.statement c)
        ((s.lock c row.id).put c { k with phase := .consumed row, consumedId := some row.id })
  | own {act : Act} {c k row} (hk : s.callers[c]? = some k) (hphase : k.phase = .consumed row) :
      Fires settings s act (s.put c { k with phase := .issuing row })
  | snapshot {c k cause} (hk : s.callers[c]? = some k) (hphase : k.phase = .condemned cause) :
      Fires settings s (.statement c) (s.put c { k with phase := .revoking cause s.snapshot })
  | revokeRow {act c k cause todo id} (hk : s.callers[c]? = some k)
      (hphase : k.phase = .revoking cause todo) (hfree : s.locks id = none ∨ s.locks id = some c) :
      Fires settings s act ((s.lock c id).put c
        { k with phase := .revoking cause (todo.erase id), revoked := id :: k.revoked })
  | skip {act c k cause todo id} (hk : s.callers[c]? = some k)
      (hphase : k.phase = .revoking cause todo)
      (hrow : (s.row id).any (·.revokedAt = none) = false) :
      Fires settings s act (s.put c { k with phase := .revoking cause (todo.erase id) })
  | finish {act : Act} {c k} (hk : s.callers[c]? = some k) :
      Fires settings s act (s.finish c k)
  | issue {c : Nat} {k row} (hk : s.callers[c]? = some k) (hphase : k.phase = .issuing row) :
      Fires settings s (.commit c)
        { s.finish c k with
          tokens := s.tokens.map k.write ++
            [newRow settings s.nextId k.now row.userId row.machineId row.authVersion
              row.absoluteExpiresAt]
          nextId := s.nextId + 1 }
  | revoke {c k cause} (hk : s.callers[c]? = some k) (hphase : k.phase = .revoking cause []) :
      Fires settings s (.commit c) { s.finish c k with tokens := s.tokens.map k.write }

theorem consume_fires (hk : s.callers[c]? = some k)
    (hop : k.op = .rotate) (hphase : k.phase = .start) (h : s.consume c k = some t) :
    Fires settings s (.statement c) t := by
  unfold State.consume at h
  split at h
  · cases h
    exact .move hk rfl
  rename_i row hrow
  split at h
  · rename_i hconsumable
    split at h
    · rename_i hfree
      cases h
      refine .consume hk ?_ hrow hconsumable hfree
      simp [State.consumes, hop, hphase, hrow, hconsumable]
    · cases h
  · cases h
    exact .move hk rfl

theorem refuse_fires (hk : s.callers[c]? = some k) (act : Act) :
    Fires settings s act (s.refuse c k) := by
  unfold State.refuse
  split
  · exact .finish hk
  · split
    · exact .finish hk
    · split
      · exact .move hk rfl
      · exact .finish hk

theorem logout_fires (hk : s.callers[c]? = some k) (act : Act) :
    Fires settings s act (s.logout c k) := by
  unfold State.logout
  split
  · exact .finish hk
  · exact .move hk rfl

theorem step_fires (h : step settings s act = some t) : Fires settings s act t := by
  cases act with
  | begin op secret now =>
    cases h
    exact .begin
  | statement c =>
    obtain ⟨k, hk, h⟩ := bind_eq_some_iff.mp h
    unfold State.statement at h
    split at h
    · rename_i hphase hop
      exact consume_fires hk hop hphase h
    · cases h
      exact logout_fires hk _
    · cases h
      exact refuse_fires hk _
    · rename_i cause hphase
      cases h
      exact .snapshot hk hphase
    · cases h
  | owner c machine user =>
    obtain ⟨k, hk, h⟩ := bind_eq_some_iff.mp h
    unfold State.owner at h
    split at h
    · rename_i row hphase
      split at h
      · cases h
        exact .own hk hphase
      · cases h
        exact .move hk rfl
    · cases h
  | revokeRow c id =>
    obtain ⟨k, hk, h⟩ := bind_eq_some_iff.mp h
    unfold State.revokeRow at h
    split at h
    · rename_i cause todo hphase
      split at h
      · rename_i hfree
        simp only [] at h
        split at h
        · cases h
          exact .revokeRow hk hphase hfree.2
        · rename_i hrow
          cases h
          exact .skip hk hphase (by simpa using hrow)
      · cases h
    · cases h
  | commit c =>
    obtain ⟨k, hk, h⟩ := bind_eq_some_iff.mp h
    unfold State.commit at h
    split at h
    · rename_i row hphase
      cases h
      exact .issue hk hphase
    · rename_i cause hphase
      cases h
      exact .revoke hk hphase
    · cases h
  | abort c =>
    obtain ⟨k, hk, h⟩ := bind_eq_some_iff.mp h
    split at h
    · cases h
    · cases h
      exact .finish hk

theorem lock_other (hfree : s.locks id = none ∨ s.locks id = some c) (other) (owner)
    (hne : owner ≠ c) (hlock : s.locks other = some owner) :
    (s.lock c id).locks other = some owner := by
  show (if other = id then some c else s.locks other) = some owner
  rw [if_neg, hlock]
  rintro rfl
  rcases hfree with hfree | hfree
  · rw [hfree] at hlock
    cases hlock
  · exact hne (some.inj (hlock.symm.trans hfree))

theorem lock_own {other} (hlock : s.locks other = some c) : (s.lock c id).locks other = some c := by
  show (if other = id then some c else s.locks other) = some c
  split
  · rfl
  · exact hlock

theorem finish_other (k id) (other) (hne : other ≠ c)
    (hlock : s.locks id = some other) : (s.finish c k).locks id = some other := by
  show (if s.locks id = some c then none else s.locks id) = some other
  rw [if_neg, hlock]
  rw [hlock]
  exact fun heq => hne (some.inj heq)

/-! ## The invariant -/

/-- What holds of a family in every run: one token is not consumed at most,
and a transaction has locked what it is going to write. -/
structure Inv (absolute : Int) (s : State) : Prop where
  ids : (s.tokens.map (·.id)).Nodup
  fresh : ∀ row ∈ s.tokens, row.id < s.nextId
  single : ∀ a ∈ s.tokens, ∀ b ∈ s.tokens, a.consumedAt = none → b.consumedAt = none → a = b
  expiry : ∀ row ∈ s.tokens,
    row.expiresAt ≤ row.absoluteExpiresAt ∧ row.absoluteExpiresAt = absolute
  consumed : ∀ c k id, s.callers[c]? = some k → k.consumedId = some id →
    s.locks id = some c ∧ ∃ row ∈ s.tokens, row.id = id ∧ row.consumedAt = none
  rotating : ∀ k ∈ s.callers, ∀ row, k.phase = .consumed row ∨ k.phase = .issuing row →
    k.consumedId = some row.id ∧ row.absoluteExpiresAt = absolute

@[simp] theorem issued_callers (now userId machineId authVersion) :
    (State.issued settings now userId machineId authVersion).callers = [] := rfl

theorem inv_issued (now userId machineId authVersion) :
    Inv (now + settings.absolute) (State.issued settings now userId machineId authVersion) := by
  refine ⟨nodup_singleton _, ?_, ?_, ?_, ?_, ?_⟩
  · intro row hrow
    rw [mem_singleton.mp hrow]
    exact Nat.zero_lt_one
  · intro a ha b hb _ _
    rw [mem_singleton.mp ha, mem_singleton.mp hb]
  · intro row hrow
    rw [mem_singleton.mp hrow]
    exact ⟨min_le_right _ _, rfl⟩
  · intro c k id hk
    simp at hk
  · intro k hk
    simp at hk

theorem row_some (h : s.row id = some row) : row ∈ s.tokens ∧ row.id = id :=
  ⟨List.mem_of_find?_eq_some h, by simpa using List.find?_some h⟩

theorem Inv.nodup (h : Inv absolute s) : s.tokens.Nodup := .of_map _ h.ids

variable {tokens : List TokenRow} {nextId : TokenId}

theorem Inv.put {locks} (h : Inv absolute s)
    (hlocks : ∀ id other, other ≠ c → s.locks id = some other → locks id = some other)
    (hconsumed : ∀ id, k'.consumedId = some id →
      locks id = some c ∧ ∃ row ∈ s.tokens, row.id = id ∧ row.consumedAt = none)
    (hrotating : ∀ row, k'.phase = .consumed row ∨ k'.phase = .issuing row →
      k'.consumedId = some row.id ∧ row.absoluteExpiresAt = absolute) :
    Inv absolute { s with locks := locks, callers := s.callers.set c k' } := by
  refine ⟨h.ids, h.fresh, h.single, h.expiry, ?_, ?_⟩
  · intro other k id hk hid
    rw [List.getElem?_set] at hk
    split at hk
    · rename_i heq
      subst heq
      split at hk
      · cases hk
        exact hconsumed id hid
      · cases hk
    · rename_i hne
      obtain ⟨hlock, hrow⟩ := h.consumed other k id hk hid
      exact ⟨hlocks id other (Ne.symm hne) hlock, hrow⟩
  · intro k hk row hphase
    rcases mem_or_eq_of_mem_set hk with hk | rfl
    · exact h.rotating k hk row hphase
    · exact hrotating row hphase

theorem Inv.move (h : Inv absolute s)
    (hk : s.callers[c]? = some k) (hsame : k'.consumedId = k.consumedId)
    (hrotating : k'.rotating = false) : Inv absolute (s.put c k') := by
  refine h.put (fun _ _ _ hlock => hlock) ?_ ?_
  · intro id hid
    exact h.consumed c k id hk (hsame.symm.trans hid)
  · intro row hphase
    rcases hphase with hphase | hphase <;> rw [Caller.rotating, hphase] at hrotating <;>
      cases hrotating

theorem Inv.finish (h : Inv absolute s) (c) (k) : Inv absolute (s.finish c k) := by
  refine h.put (finish_other k) nofun ?_
  intro row hphase
  rcases hphase with hphase | hphase <;> cases hphase

@[simp] theorem write_id (k : Caller) (row) : (k.write row).id = row.id := rfl

theorem consumedAt_of_write (h : (k.write row).consumedAt = none) :
    row.consumedAt = none ∧ k.consumedId ≠ some row.id := by
  have h : (if k.consumedId = some row.id then some k.now else row.consumedAt) = none := h
  split at h
  · cases h
  · rename_i hne
    exact ⟨h, hne⟩

theorem Inv.write (h : Inv absolute s) (hk : s.callers[c]? = some k) :
    Inv absolute { s.finish c k with tokens := s.tokens.map k.write } := by
  have hfinish := h.finish c k
  refine ⟨?_, ?_, ?_, ?_, ?_, hfinish.rotating⟩
  · show ((s.tokens.map k.write).map (·.id)).Nodup
    rw [List.map_map]
    exact h.ids
  · intro row hrow
    obtain ⟨old, hold, rfl⟩ := List.mem_map.mp hrow
    exact h.fresh old hold
  · intro a ha b hb hopen hopen'
    obtain ⟨olda, holda, rfl⟩ := List.mem_map.mp ha
    obtain ⟨oldb, holdb, rfl⟩ := List.mem_map.mp hb
    rw [h.single olda holda oldb holdb (consumedAt_of_write hopen).1 (consumedAt_of_write hopen').1]
  · intro row hrow
    obtain ⟨old, hold, rfl⟩ := List.mem_map.mp hrow
    exact h.expiry old hold
  · intro other k' id hk' hid
    obtain ⟨hlock, row, hrow, hrowId, hopen⟩ := hfinish.consumed other k' id hk' hid
    refine ⟨hlock, k.write row, List.mem_map_of_mem hrow, hrowId, ?_⟩
    -- the row another transaction has consumed is locked by it
    have hne : k.consumedId ≠ some row.id := by
      intro hsame
      rw [hrowId] at hsame
      have hlock' := (h.consumed c k id hk hsame).1
      have hfree : (s.finish c k).locks id = none := if_pos hlock'
      rw [hfree] at hlock
      cases hlock
    show (if k.consumedId = some row.id then some k.now else row.consumedAt) = none
    rw [if_neg hne]
    exact hopen

theorem Inv.issue (h : Inv absolute s)
    (hk : s.callers[c]? = some k) (hphase : k.phase = .issuing row) :
    Inv absolute { s.finish c k with
      tokens := s.tokens.map k.write ++
        [newRow settings s.nextId k.now row.userId row.machineId row.authVersion
          row.absoluteExpiresAt]
      nextId := s.nextId + 1 } := by
  have hwritten := h.write hk
  obtain ⟨hid, habsolute⟩ := h.rotating k (mem_of_getElem? hk) row (.inr hphase)
  obtain ⟨hlock, old, hold, holdId, holdOpen⟩ := h.consumed c k row.id hk hid
  -- after the commit only the successor is not consumed
  have hnone : ∀ other ∈ s.tokens.map k.write, other.consumedAt ≠ none := by
    intro other hother hopen
    obtain ⟨before, hbefore, rfl⟩ := List.mem_map.mp hother
    obtain ⟨hopen, hne⟩ := consumedAt_of_write hopen
    rw [h.single before hbefore old hold hopen holdOpen, holdId] at hne
    exact hne hid
  refine ⟨?_, ?_, ?_, ?_, ?_, hwritten.rotating⟩
  · rw [map_append, map_singleton]
    refine nodup_append.mpr ⟨hwritten.ids, nodup_singleton _, ?_⟩
    intro a ha b hb heq
    obtain ⟨other, hother, rfl⟩ := List.mem_map.mp ha
    have hlt : other.id < s.nextId := hwritten.fresh other hother
    have hnew : other.id = s.nextId := heq.trans (mem_singleton.mp hb)
    exact absurd hnew hlt.ne
  · intro other hother
    rcases mem_append.mp hother with hother | hother
    · exact (hwritten.fresh other hother).trans (Nat.lt_succ_self _)
    · rw [mem_singleton.mp hother]
      exact Nat.lt_succ_self _
  · intro a ha b hb hopen hopen'
    rcases mem_append.mp ha with ha | ha
    · exact absurd hopen (hnone a ha)
    · rcases mem_append.mp hb with hb | hb
      · exact absurd hopen' (hnone b hb)
      · rw [mem_singleton.mp ha, mem_singleton.mp hb]
  · intro other hother
    rcases mem_append.mp hother with hother | hother
    · exact hwritten.expiry other hother
    · rw [mem_singleton.mp hother]
      exact ⟨min_le_right _ _, habsolute⟩
  · intro other k' id hk' hid'
    obtain ⟨_, row', hrow', _, hopen⟩ := hwritten.consumed other k' id hk' hid'
    exact absurd hopen (hnone row' hrow')

theorem Inv.step (h : Inv absolute s) (hstep : step settings s act = some t) : Inv absolute t := by
  cases step_fires hstep with
  | begin =>
    refine ⟨h.ids, h.fresh, h.single, h.expiry, ?_, ?_⟩
    · intro c k id hk hid
      rw [List.getElem?_append] at hk
      split at hk
      · exact h.consumed c k id hk hid
      · have hmem := mem_of_getElem? hk
        rw [mem_singleton.mp hmem] at hid
        cases hid
    · intro k hk row hphase
      rcases mem_append.mp hk with hk | hk
      · exact h.rotating k hk row hphase
      · rw [mem_singleton.mp hk] at hphase
        rcases hphase with hphase | hphase <;> cases hphase
  | @move _ c k phase hk hidle =>
    refine h.move hk rfl ?_
    show Caller.rotating { k with phase := phase } = false
    cases phase <;> first | rfl | cases hidle
  | @consume c k row hk _ hrow hconsumable hfree =>
    obtain ⟨hmem, _⟩ := row_some hrow
    have hopen : row.consumedAt = none := by
      simp [TokenRow.consumable] at hconsumable
      exact hconsumable.1.1
    refine h.put (lock_other (.inl hfree)) ?_ ?_
    · intro id hid
      cases hid
      exact ⟨if_pos rfl, row, hmem, rfl, hopen⟩
    · intro other hphase
      rcases hphase with hphase | hphase
      · cases hphase
        exact ⟨rfl, (h.expiry row hmem).2⟩
      · cases hphase
  | @own _ c k row hk hphase =>
    refine h.put (fun _ _ _ hlock => hlock) (fun id hid => h.consumed c k id hk hid) ?_
    intro other hother
    rcases hother with hother | hother
    · cases hother
    · cases hother
      exact h.rotating k (mem_of_getElem? hk) row (.inl hphase)
  | snapshot hk _ => exact h.move hk rfl rfl
  | @revokeRow _ c k _ _ id hk _ hfree =>
    refine h.put (lock_other hfree) ?_ ?_
    · intro other hother
      obtain ⟨hlock, hrow⟩ := h.consumed c k other hk hother
      exact ⟨lock_own hlock, hrow⟩
    · intro row hrow
      rcases hrow with hrow | hrow <;> cases hrow
  | skip hk _ _ => exact h.move hk rfl rfl
  | finish hk => exact h.finish _ _
  | issue hk hphase => exact h.issue hk hphase
  | revoke hk _ => exact h.write hk

/-- A row that a transaction is going to revoke is locked by it. -/
def Locked (s : State) : Prop :=
  ∀ c k, s.callers[c]? = some k → ∀ id ∈ k.revoked, s.locks id = some c

theorem Locked.put {locks} (h : Locked s)

    (hlocks : ∀ id other, other ≠ c → s.locks id = some other → locks id = some other)
    (hself : ∀ id ∈ k'.revoked, locks id = some c) :
    Locked ⟨tokens, nextId, locks, s.callers.set c k'⟩ := by
  intro other k hk id hid
  rw [List.getElem?_set] at hk
  split at hk
  · rename_i heq
    subst heq
    split at hk
    · cases hk
      exact hself id hid
    · cases hk
  · rename_i hne
    exact hlocks id other (Ne.symm hne) (h other k hk id hid)

theorem Locked.step (h : Locked s) (hstep : step settings s act = some t) : Locked t := by
  have hsame : ∀ id other, s.locks id = some other → s.locks id = some other := fun _ _ => id
  cases step_fires hstep with
  | begin =>
    intro c k hk id hid
    rw [List.getElem?_append] at hk
    split at hk
    · exact h c k hk id hid
    · rw [mem_singleton.mp (mem_of_getElem? hk)] at hid
      cases hid
  | @move _ c k _ hk _ => exact h.put (fun id other _ => hsame id other) (by exact h c k hk)
  | @consume c k _ hk _ _ _ hfree =>
    refine h.put (lock_other (.inl hfree)) ?_
    intro id hid
    exact lock_own (h c k hk id hid)
  | @own _ c k _ hk _ => exact h.put (fun id other _ => hsame id other) (by exact h c k hk)
  | @snapshot c k _ hk _ => exact h.put (fun id other _ => hsame id other) (by exact h c k hk)
  | revokeRow hk _ hfree =>
    refine h.put (lock_other hfree) ?_
    intro other hother
    rcases mem_cons.mp hother with rfl | hother
    · exact if_pos rfl
    · exact lock_own (h _ _ hk other hother)
  | @skip _ c k _ _ _ hk _ _ => exact h.put (fun id other _ => hsame id other) (by exact h c k hk)
  | @finish _ c k hk => exact h.put (finish_other k) nofun
  | @issue c k _ hk _ | @revoke c k _ hk _ => exact h.put (finish_other k) nofun

/-! ## A dead family -/

/-- Neither consumed nor revoked. -/
def TokenRow.isOpen (row : TokenRow) : Bool := row.consumedAt = none && row.revokedAt = none

theorem isOpen_iff : row.isOpen ↔ row.consumedAt = none ∧ row.revokedAt = none := by
  simp [TokenRow.isOpen]

/-- No token is open and no successor is on its way. -/
structure Dead (s : State) : Prop where
  tokens : ∀ row ∈ s.tokens, ¬ row.isOpen
  callers : ∀ k ∈ s.callers, k.rotating = false

theorem isOpen_of_write (h : (k.write row).isOpen) : row.isOpen ∧ row.id ∉ k.revoked := by
  obtain ⟨hconsumed, hrevoked⟩ := isOpen_iff.mp h
  have hrevoked : (if row.id ∈ k.revoked then some k.now else row.revokedAt) = none := hrevoked
  split at hrevoked
  · cases hrevoked
  · rename_i hmem
    exact ⟨isOpen_iff.mpr ⟨(consumedAt_of_write hconsumed).1, hrevoked⟩, hmem⟩

theorem rotating_of_consumed (h : k.phase = .consumed row) : k.rotating = true := by
  rw [Caller.rotating, h]

theorem rotating_of_issuing (h : k.phase = .issuing row) : k.rotating = true := by
  rw [Caller.rotating, h]

theorem isOpen_of_consumable {now} (h : row.consumable now) : row.isOpen := by
  simp only [TokenRow.consumable, Bool.and_eq_true] at h
  simp [TokenRow.isOpen, h.1]

theorem not_rotating_set (h : ∀ k ∈ s.callers, k.rotating = false)
    (hk' : k'.rotating = false) : ∀ k ∈ s.callers.set c k', k.rotating = false := by
  intro k hk
  rcases mem_or_eq_of_mem_set hk with hk | rfl
  · exact h k hk
  · exact hk'

theorem rotating_of_idle (h : k.phase.idle) : k.rotating = false := by
  unfold Caller.rotating
  cases hphase : k.phase <;> rw [hphase] at h <;> first | rfl | cases h

/-- **A dead family stays dead**, whatever is called. -/
theorem Dead.step (h : Dead s) (hstep : step settings s act = some t) : Dead t := by
  cases step_fires hstep with
  | begin =>
    refine ⟨h.tokens, fun k hk => ?_⟩
    rcases mem_append.mp hk with hk | hk
    · exact h.callers k hk
    · rw [mem_singleton.mp hk]
      rfl
  | move hk hidle => exact ⟨h.tokens, not_rotating_set h.callers (rotating_of_idle hidle)⟩
  | consume hk _ hrow hconsumable _ =>
    exact absurd (isOpen_of_consumable hconsumable) (h.tokens _ (row_some hrow).1)
  | own hk hphase =>
    have hrotating := h.callers _ (mem_of_getElem? hk)
    rw [rotating_of_consumed hphase] at hrotating
    cases hrotating
  | snapshot | revokeRow | skip | finish => exact ⟨h.tokens, not_rotating_set h.callers rfl⟩
  | issue hk hphase =>
    have hrotating := h.callers _ (mem_of_getElem? hk)
    rw [rotating_of_issuing hphase] at hrotating
    cases hrotating
  | revoke hk _ =>
    refine ⟨?_, not_rotating_set h.callers rfl⟩
    intro row hrow hopen
    obtain ⟨old, hold, rfl⟩ := List.mem_map.mp hrow
    exact h.tokens old hold (isOpen_of_write hopen).1

/-- A family UPDATE under way has every open token before it or locked, and
no rotation is on its way. -/
def Condemned (s : State) : Prop :=
  ∀ k ∈ s.callers, ∀ cause todo, k.phase = .revoking cause todo →
    (∀ row ∈ s.tokens, row.isOpen → row.id ∈ todo ∨ row.id ∈ k.revoked) ∧
      ∀ other ∈ s.callers, other.rotating = false

/-- A caller moves on without a token becoming open or a rotation
beginning. -/
theorem Condemned.put {locks} (h : Condemned s)

    (htokens : ∀ row ∈ tokens, row.isOpen → ∃ old ∈ s.tokens, old.id = row.id ∧ old.isOpen)
    (hrotating : k'.rotating = false)
    (hself : ∀ cause todo, k'.phase = .revoking cause todo →
      (∀ row ∈ tokens, row.isOpen → row.id ∈ todo ∨ row.id ∈ k'.revoked) ∧
        ∀ other ∈ s.callers, other.rotating = false) :
    Condemned ⟨tokens, nextId, locks, s.callers.set c k'⟩ := by
  intro k hk cause todo hphase
  rcases mem_or_eq_of_mem_set hk with hk | rfl
  · obtain ⟨hopen, hothers⟩ := h k hk cause todo hphase
    refine ⟨?_, not_rotating_set hothers hrotating⟩
    intro row hrow hrowOpen
    obtain ⟨old, hold, heq, holdOpen⟩ := htokens row hrow hrowOpen
    rw [← heq]
    exact hopen old hold holdOpen
  · obtain ⟨hopen, hothers⟩ := hself cause todo hphase
    exact ⟨hopen, not_rotating_set hothers hrotating⟩

theorem revoking_of_idle {phase : Phase} (h : phase.idle) (cause : Cause) (todo : List TokenId) :
    phase ≠ .revoking cause todo := by
  rintro rfl
  cases h

/-- **An undisturbed step keeps every revocation on its way.** -/
theorem Condemned.step (h : Condemned s) (hinv : Inv absolute s)
    (hlocked : Locked s) (hapart : Apart s act) (hstep : step settings s act = some t) :
    Condemned t := by
  have hsame : ∀ row ∈ s.tokens, row.isOpen → ∃ old ∈ s.tokens, old.id = row.id ∧ old.isOpen :=
    fun row hrow hopen => ⟨row, hrow, rfl, hopen⟩
  cases step_fires hstep with
  | begin =>
    intro k hk cause todo hphase
    rcases mem_append.mp hk with hk | hk
    · obtain ⟨hopen, hothers⟩ := h k hk cause todo hphase
      refine ⟨hopen, fun other hother => ?_⟩
      rcases mem_append.mp hother with hother | hother
      · exact hothers other hother
      · rw [mem_singleton.mp hother]
        rfl
    · rw [mem_singleton.mp hk] at hphase
      cases hphase
  | move hk hidle =>
    exact h.put hsame (rotating_of_idle hidle) fun cause todo hphase =>
      absurd hphase (revoking_of_idle hidle cause todo)
  | @consume c k row hk hconsumes hrow hconsumable hfree =>
    -- a row that a family UPDATE has locked is not free, one it has to come to is forbidden
    obtain ⟨hmem, hid⟩ := row_some hrow
    intro other hother cause todo hphase
    rcases mem_or_eq_of_mem_set hother with hother | rfl
    · have hcome := (hapart k hk).2 hconsumes other hother
      rcases (h other hother cause todo hphase).1 row hmem (isOpen_of_consumable hconsumable) with
        htodo | hrevoked
      · rw [Caller.todo, hphase, ← hid] at hcome
        exact absurd htodo hcome
      · obtain ⟨i, hi, rfl⟩ := mem_iff_getElem.mp hother
        have hlock := hlocked i _ (List.getElem?_eq_getElem hi) row.id hrevoked
        rw [hfree] at hlock
        cases hlock
    · cases hphase
  | @own _ c k row hk hphase =>
    intro other hother cause todo hother'
    rcases mem_or_eq_of_mem_set hother with hother | rfl
    · have hrotating := (h other hother cause todo hother').2 k (mem_of_getElem? hk)
      rw [rotating_of_consumed hphase] at hrotating
      cases hrotating
    · cases hother'
  | @snapshot c k cause hk hphase =>
    refine h.put hsame rfl ?_
    intro cause' todo hphase'
    cases hphase'
    refine ⟨?_, (hapart k hk).1 (by rw [Caller.condemns, hphase])⟩
    intro row hrow hopen
    left
    refine List.mem_map_of_mem (mem_filter.mpr ⟨hrow, ?_⟩)
    exact decide_eq_true (isOpen_iff.mp hopen).2
  | @revokeRow _ c k cause todo id hk hphase _ =>
    refine h.put hsame rfl ?_
    intro cause' todo' hphase'
    cases hphase'
    obtain ⟨hopen, hothers⟩ := h k (mem_of_getElem? hk) cause todo hphase
    refine ⟨?_, hothers⟩
    intro row hrow hrowOpen
    by_cases heq : row.id = id
    · exact .inr (heq ▸ mem_cons_self)
    · rcases hopen row hrow hrowOpen with htodo | hrevoked
      · exact .inl ((mem_erase_of_ne heq).mpr htodo)
      · exact .inr (.tail _ hrevoked)
  | @skip _ c k cause todo id hk hphase hrow =>
    refine h.put hsame rfl ?_
    intro cause' todo' hphase'
    cases hphase'
    obtain ⟨hopen, hothers⟩ := h k (mem_of_getElem? hk) cause todo hphase
    refine ⟨?_, hothers⟩
    intro row hmem hrowOpen
    rcases hopen row hmem hrowOpen with htodo | hrevoked
    · -- the row it skips has been revoked by another transaction
      have hne : row.id ≠ id := by
        rintro rfl
        have hfind : s.row row.id = some row :=
          Keyed.find?_of_mem (fun row : TokenRow => row.id) hinv.ids hmem
        rw [hfind, any_some, (isOpen_iff.mp hrowOpen).2] at hrow
        cases hrow
      exact .inl ((mem_erase_of_ne hne).mpr htodo)
    · exact .inr hrevoked
  | finish hk => exact h.put hsame rfl nofun
  | @issue c k row hk hphase =>
    intro other hother cause todo hother'
    rcases mem_or_eq_of_mem_set hother with hother | rfl
    · have hrotating := (h other hother cause todo hother').2 k (mem_of_getElem? hk)
      rw [rotating_of_issuing hphase] at hrotating
      cases hrotating
    · cases hother'
  | revoke hk _ =>
    refine h.put ?_ rfl nofun
    intro row hrow hopen
    obtain ⟨old, hold, rfl⟩ := List.mem_map.mp hrow
    exact ⟨old, hold, rfl, (isOpen_of_write hopen).1⟩

end StudioOS.RefreshTokens
