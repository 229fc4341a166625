import StudioOS.Idempotency.AtMostOnce

/-!
# Idempotency — Replay

Whose result a replay returns. The reclaiming UPDATE rewrites `request_hash`
in place, and `_complete` and `_release` find the row by (key, endpoint)
alone: an owner that was taken over completes, or deletes, the row of the
request that took over.
-/

namespace StudioOS.Idempotency

open Runs

variable {ρ β : Type*}

/-- The request owns the reservation: `create()`, `_complete` or
`_release` is under way. -/
def Phase.holds : Phase β → Bool
  | .creating | .created _ | .completing _ _ | .raised | .releasing _ => true
  | _ => false

/-- The row that a pending UPDATE or DELETE was loaded from. -/
def Phase.loaded : Phase β → Option (IdempotencyRow β)
  | .completing _ row | .releasing row => some row
  | _ => none

/-- What `create()` returned, until it is stored. -/
def Phase.result : Phase β → Option β
  | .created result | .completing result _ => some result
  | _ => none

/-- A takeover happens only when no request of the slot, the one that
takes over apart, owns the reservation. -/
def OwnerGone (s : State ρ β) : Act ρ β → Prop
  | .reclaim r => ∀ k ∈ s.takeoverOf r, ∀ r', s.inPhase k Phase.holds r' = false
  | _ => True

instance [Fintype ρ] (s : State ρ β) : (a : Act ρ β) → Decidable (OwnerGone s a)
  | .reclaim r => inferInstanceAs (Decidable (∀ k ∈ s.takeoverOf r,
      ∀ r', s.inPhase k Phase.holds r' = false))
  | .advance _ | .arrive .. | .readClock _ | .reserve _ | .poll _ | .commitEffect .. | .raise _
  | .loadRow _ | .complete _ | .rollback _ | .delete _ | .crash _ => .isTrue trivial

/-- `body` is the result of a `create()` that ran for this slot and hash. -/
def State.Backed (s : State ρ β) (k : Slot) (requestHash : String) (body : Option β) : Prop :=
  ∃ e ∈ s.effects, e.slot = k ∧ e.requestHash = requestHash ∧ body = some e.result

/-- The reservation of `q` stands: its slot holds a `pending` row with
its hash, and what it loaded is that row. -/
def State.Reserved (s : State ρ β) (q : Request β) : Prop :=
  ∃ row, s.table q.slot = some row ∧ row.status = .pending ∧ row.requestHash = q.requestHash ∧
    ∀ old ∈ q.phase.loaded, old = row

structure Sound (s : State ρ β) (q : Request β) : Prop where
  reserved : q.phase.holds = true → s.Reserved q
  result : ∀ result ∈ q.phase.result, s.Backed q.slot q.requestHash (some result)
  replay : ∀ body, q.phase = .replayed body → s.Backed q.slot q.requestHash body

/-- **The replay invariant**: every request is sound, a slot has one
owner at most, and a completed row stores the result of a `create()`
that ran for its hash. -/
structure ReplayInv (s : State ρ β) : Prop where
  sound : ∀ r q, s.requests r = some q → Sound s q
  unique : ∀ k r r', s.inPhase k Phase.holds r = true → s.inPhase k Phase.holds r' = true → r = r'
  rows : ∀ k row, s.table k = some row → row.status = .completed →
    s.Backed k row.requestHash row.responseBody

theorem replayInv_initial (clock) : ReplayInv (State.initial ρ β clock) where
  sound := fun _ _ h => by cases h
  unique := fun _ _ _ h _ => by cases h
  rows := fun _ _ h _ => by cases h

variable {s t : State ρ β} {k : Slot} {q : Request β} {p : Phase β} {r : ρ} {a : Act ρ β}

theorem State.Backed.mono {requestHash body} (h : s.Backed k requestHash body)
    (he : ∀ e ∈ s.effects, e ∈ t.effects) :
    t.Backed k requestHash body := by
  obtain ⟨e, hmem, hrest⟩ := h
  exact ⟨e, he e hmem, hrest⟩

/-- A request keeps its soundness while its slot's row, if it owns it,
stays as it is and effects are only added. -/
theorem Sound.frame (h : Sound s q) (hrow : q.phase.holds = true → t.table q.slot = s.table q.slot)
    (he : ∀ e ∈ s.effects, e ∈ t.effects) : Sound t q where
  reserved := by
    intro hp
    obtain ⟨row, hk, hrest⟩ := h.reserved hp
    exact ⟨row, by rw [hrow hp, hk], hrest⟩
  result := fun result hr => (h.result result hr).mono he
  replay := fun body hp => (h.replay body hp).mono he

theorem Phase.not_holds_of_outside (h : p.outside = true) : p.holds = false := by
  cases p <;> first | rfl | cases h

theorem Phase.result_of_outside (h : p.outside = true) : p.result = none := by
  cases p <;> first | rfl | cases h

/-- A phase that neither owns the reservation nor carries a result or a
replay asks nothing. -/
theorem Sound.outside (hp : q.phase.outside = true) : Sound s q where
  reserved := by
    intro h
    rw [Phase.not_holds_of_outside hp] at h
    cases h
  result := by
    intro result h
    rw [Phase.result_of_outside hp] at h
    cases h
  replay := by
    intro body h
    rw [h] at hp
    cases hp

theorem ReplayInv.only (hs : ReplayInv s) (hq : s.requests r = some q) (hp : q.phase.holds = true) :
    ∀ r', r' ≠ r → s.inPhase q.slot Phase.holds r' = false := by
  intro r' hne
  rw [Bool.eq_false_iff]
  intro h
  exact hne (hs.unique q.slot r' r h (State.inPhase_iff.mpr ⟨q, hq, rfl, hp⟩))

theorem ReplayInv.unowned (hs : ReplayInv s) (hk : s.table k = none)
    (r) : s.inPhase k Phase.holds r = false := by
  rw [Bool.eq_false_iff]
  intro h
  obtain ⟨q, hq, rfl, hp⟩ := State.inPhase_iff.mp h
  obtain ⟨row, hrow, -⟩ := (hs.sound r q hq).reserved hp
  rw [hk] at hrow
  cases hrow

theorem ReplayInv.reserved (hs : ReplayInv s) {row} (hq : s.requests r = some q)
    (hp : q.phase.holds = true)
    (hrow : s.table q.slot = some row) : row.status = .pending ∧ row.requestHash = q.requestHash ∧
      ∀ old ∈ q.phase.loaded, old = row := by
  obtain ⟨row', hrow', hrest⟩ := (hs.sound r q hq).reserved hp
  rw [hrow] at hrow'
  cases hrow'
  exact hrest

/-! ## One step -/

variable [DecidableEq ρ]

/-- **The step rule**: the request `r` moves to the phase `p`, the row of
its slot becomes what `t` says. It is enough that `r` is sound in its
new phase, that it owned the slot before or nobody did, and that a row
it leaves completed is backed. -/
theorem ReplayInv.moves (hs : ReplayInv s) (hreq : t.requests = (s.setPhase r q p).requests)
    (hsound : Sound t { q with phase := p })
    (howner : p.holds = true ∨ t.table q.slot ≠ s.table q.slot →
      ∀ r', r' ≠ r → s.inPhase q.slot Phase.holds r' = false)
    (htable : ∀ k, k ≠ q.slot → t.table k = s.table k)
    (he : ∀ e ∈ s.effects, e ∈ t.effects)
    (hrow : ∀ row, t.table q.slot = some row → row.status = .completed →
      t.Backed q.slot row.requestHash row.responseBody) : ReplayInv t := by
  have hin : ∀ k r', t.inPhase k Phase.holds r' =
      if r' = r then decide (q.slot = k) && p.holds else s.inPhase k Phase.holds r' := by
    intro k r'
    have : t.inPhase k Phase.holds r' = (s.setPhase r q p).inPhase k Phase.holds r' := by
      simp [State.inPhase, hreq]
    rw [this, State.inPhase_setPhase]
  -- a second owner of a slot next to `r` is excluded by `howner`
  have alone : ∀ k r', t.inPhase k Phase.holds r = true → t.inPhase k Phase.holds r' = true →
      r' = r := by
    intro k r' h h'
    by_contra hne
    rw [hin, if_pos rfl, Bool.and_eq_true, decide_eq_true_eq] at h
    obtain ⟨rfl, hp⟩ := h
    rw [hin, if_neg hne, howner (.inl hp) r' hne] at h'
    cases h'
  refine ⟨?_, ?_, ?_⟩
  · intro r' q' hq'
    by_cases hr : r' = r
    · subst hr
      rw [hreq, State.setPhase_requests_self] at hq'
      cases hq'
      exact hsound
    rw [hreq, State.setPhase_requests_ne s q p hr] at hq'
    refine (hs.sound r' q' hq').frame (fun hp => ?_) he
    by_cases hk : q'.slot = q.slot
    · by_contra hne
      rw [hk] at hne
      have := howner (.inr hne) r' hr
      rw [Bool.eq_false_iff] at this
      exact this (State.inPhase_iff.mpr ⟨q', hq', hk, hp⟩)
    · exact htable _ hk
  · intro k r₁ r₂ h₁ h₂
    by_cases hr₁ : r₁ = r
    · subst hr₁
      exact (alone k r₂ h₁ h₂).symm
    by_cases hr₂ : r₂ = r
    · subst hr₂
      exact alone k r₁ h₂ h₁
    · rw [hin, if_neg hr₁] at h₁
      rw [hin, if_neg hr₂] at h₂
      exact hs.unique k r₁ r₂ h₁ h₂
  · intro k row hk hdone
    by_cases hkq : k = q.slot
    · subst hkq
      exact hrow row hk hdone
    · rw [htable k hkq] at hk
      exact (hs.rows k row hk hdone).mono he

theorem ReplayInv.leaves (hs : ReplayInv s) (r) (q)
    (hp : p.outside = true) : ReplayInv (s.setPhase r q p) := by
  refine hs.moves rfl (.outside hp) ?_ (fun _ _ => rfl) (fun _ h => h) (hs.rows q.slot)
  rintro (h | h)
  · rw [Phase.not_holds_of_outside hp] at h
    cases h
  · exact absurd rfl h

theorem ReplayInv.starts (hs : ReplayInv s) (r) (q row) (hpending : row.status = .pending)
    (hhash : row.requestHash = q.requestHash) (hn : ∀ r', s.inPhase q.slot Phase.holds r' = false) :
    ReplayInv ((s.setRow q.slot (some row)).setPhase r q .creating) := by
  refine hs.moves rfl ⟨fun _ => ?_, (fun _ h => by cases h), (fun _ h => by cases h)⟩
    (fun _ r' _ => hn r') (fun k hk => State.setRow_table_ne s _ hk) (fun _ h => h) ?_
  · exact ⟨row, by simp, hpending, hhash, (fun _ h => by cases h)⟩
  · intro row' hrow' hdone
    rw [State.setPhase_table, State.setRow_table_self] at hrow'
    cases hrow'
    rw [hpending] at hdone
    cases hdone

theorem replayInv_step [DecidableEq β] (hs : ReplayInv s)
    (hg : OwnerGone s a) (h : step s a = some t) : ReplayInv t := by
  cases step_moves h with
  | tick d =>
    exact ⟨fun r q hq => (hs.sound r q hq).frame (fun _ => rfl) fun _ he => he, hs.unique, hs.rows⟩
  | arrive r q fresh => exact hs.leaves r q rfl
  | leave _ r q p hq hp => exact hs.leaves r q hp
  | insert r q createdAt hq free =>
    have hs' : ReplayInv { s with nextId := s.nextId + 1 } :=
      ⟨fun r q hq => (hs.sound r q hq).frame (fun _ => rfl) fun _ he => he, hs.unique, hs.rows⟩
    exact hs'.starts r q _ rfl rfl (hs.unowned free)
  | takeOver r q row cutoff createdAt hq hp hrow old =>
    exact hs.starts r q _ old.1 rfl (hg q.slot (State.takeoverOf_eq hq hp hrow old))
  | replay r q row hq hrow done hash =>
    refine hs.moves rfl ⟨(fun h => by cases h), (fun _ h => by cases h), fun body h => ?_⟩
      ?_ (fun _ _ => rfl) (fun _ h => h) (hs.rows q.slot)
    · cases h
      have := hs.rows q.slot row hrow done
      rwa [hash] at this
    · rintro (h | h)
      · cases h
      · exact absurd rfl h
  | effect r q result hq hp =>
    have hold : q.phase.holds = true := by rw [hp]; rfl
    have hsub : ∀ e ∈ s.effects, e ∈ s.effects ++ [⟨r, q.slot, q.requestHash, result⟩] :=
      fun _ he => List.mem_append_left _ he
    obtain ⟨row, hrow, hpending, hhash, -⟩ := (hs.sound r q hq).reserved hold
    refine hs.moves rfl ⟨fun _ => ⟨row, hrow, hpending, hhash, (fun _ h => by cases h)⟩, ?_,
      (fun _ h => by cases h)⟩ (fun _ => hs.only hq hold) (fun _ _ => rfl) hsub ?_
    · intro result' h
      cases h
      exact ⟨_, List.mem_append_right _ (List.mem_singleton_self _), rfl, rfl, rfl⟩
    · intro row' hrow' hdone
      exact (hs.rows q.slot row' hrow' hdone).mono hsub
  | raises r q hq hp =>
    have hold : q.phase.holds = true := by
      rcases hp with hp | ⟨result, hp⟩ <;> rw [hp] <;> rfl
    obtain ⟨row, hrow, hpending, hhash, -⟩ := (hs.sound r q hq).reserved hold
    exact hs.moves rfl ⟨fun _ => ⟨row, hrow, hpending, hhash, (fun _ h => by cases h)⟩,
      (fun _ h => by cases h), (fun _ h => by cases h)⟩ (fun _ => hs.only hq hold) (fun _ _ => rfl)
      (fun _ h => h) (hs.rows q.slot)
  | load r q result row hq hp hrow =>
    have hold : q.phase.holds = true := by rw [hp]; rfl
    obtain ⟨hpending, hhash, -⟩ := hs.reserved hq hold hrow
    refine hs.moves rfl ⟨fun _ => ⟨row, hrow, hpending, hhash, ?_⟩, ?_, (fun _ h => by cases h)⟩
      (fun _ => hs.only hq hold) (fun _ _ => rfl) (fun _ h => h) (hs.rows q.slot)
    · intro old h
      cases h
      rfl
    · intro result' h
      cases h
      exact (hs.sound r q hq).result result (by rw [hp]; rfl)
  | finish r q result old row hq hp hrow same =>
    have hold : q.phase.holds = true := by rw [hp]; rfl
    obtain ⟨-, hhash, hloaded⟩ := hs.reserved hq hold hrow
    -- the row the UPDATE meets is the one it was loaded from
    obtain rfl : old = row := hloaded old (by rw [hp]; rfl)
    refine hs.moves rfl (.outside rfl) (fun _ => hs.only hq hold)
      (fun k hk => State.setRow_table_ne s _ hk) (fun _ h => h) ?_
    intro row' hrow' _
    rw [State.setPhase_table, State.setRow_table_self] at hrow'
    cases hrow'
    have hb := (hs.sound r q hq).result result (by rw [hp]; rfl)
    simp only [IdempotencyRow.flush, IdempotencyRow.assigned, flushed_fresh, hhash]
    exact hb.mono fun _ he => he
  | unwind r q row hq hp hrow pending =>
    have hold : q.phase.holds = true := by rw [hp]; rfl
    obtain ⟨-, hhash, -⟩ := hs.reserved hq hold hrow
    refine hs.moves rfl ⟨fun _ => ⟨row, hrow, pending, hhash, ?_⟩, (fun _ h => by cases h),
      (fun _ h => by cases h)⟩ (fun _ => hs.only hq hold) (fun _ _ => rfl) (fun _ h => h)
      (hs.rows q.slot)
    intro old h
    cases h
    rfl
  | drop r q old row hq hp hrow same =>
    have hold : q.phase.holds = true := by rw [hp]; rfl
    refine hs.moves rfl (.outside rfl) (fun _ => hs.only hq hold)
      (fun k hk => State.setRow_table_ne s _ hk) (fun _ h => h) ?_
    intro row' hrow' _
    rw [State.setPhase_table, State.setRow_table_self] at hrow'
    cases hrow'

theorem ReplayInv.row_kept [DecidableEq β] (hs : ReplayInv s) (hg : OwnerGone s a)
    (h : step s a = some t) {q'} (hq : s.requests r = some q) (hp : q.phase = .creating)
    (hq' : t.requests r = some q')
    (hp' : q'.phase = .creating) : t.table q.slot = s.table q.slot := by
  have hold : q.phase.holds = true := by rw [hp]; rfl
  have hin : s.inPhase q.slot Phase.holds r = true := State.inPhase_iff.mpr ⟨q, hq, rfl, hold⟩
  -- a statement that writes a row writes the one of another slot
  have other : ∀ {k : Slot} (row : Option (IdempotencyRow β)), (k = q.slot → False) →
      Function.update s.table k row q.slot = s.table q.slot :=
    fun row hne => Function.update_of_ne (Ne.symm hne) row s.table
  -- its request would own the slot next to `r`, or be `r` itself leaving `create()`
  have clash : ∀ {r₁ q₁} (p : Phase β), s.requests r₁ = some q₁ → q₁.phase.holds = true →
      p.holds = false → t.requests = (s.setPhase r₁ q₁ p).requests → q₁.slot = q.slot → False := by
    intro r₁ q₁ p hq₁ hp₁ hleft ht hk
    have : r₁ = r := hs.unique q.slot r₁ r (State.inPhase_iff.mpr ⟨q₁, hq₁, hk, hp₁⟩) hin
    subst this
    rw [ht, State.setPhase_requests_self] at hq'
    cases hq'
    change p = .creating at hp'
    rw [hp'] at hleft
    cases hleft
  cases step_moves h with
  | tick | arrive | leave => rfl
  | insert r₁ q₁ createdAt hq₁ free =>
    refine other _ fun hk => ?_
    rw [hk] at free
    rw [hs.unowned free r] at hin
    cases hin
  | takeOver r₁ q₁ row cutoff createdAt hq₁ hp₁ hrow old =>
    refine other _ fun hk => ?_
    have := hg q₁.slot (State.takeoverOf_eq hq₁ hp₁ hrow old) r
    rw [hk, hin] at this
    cases this
  | replay | effect | raises | load => rfl
  | finish r₁ q₁ result old row hq₁ hp₁ hrow same =>
    exact other _ (clash (.answered result) hq₁ (by rw [hp₁]; rfl) rfl rfl)
  | unwind r₁ q₁ row hq₁ hp₁ hrow pending => rfl
  | drop r₁ q₁ old row hq₁ hp₁ hrow same =>
    exact other _ (clash .failed hq₁ (by rw [hp₁]; rfl) rfl rfl)

/-- **Replays agree**: in every run in which a takeover finds the former owner gone, a replayed body
is the result of a `create()` that ran for the slot and the hash of the request it answers; and a
row whose `create()` runs is `pending`, carries its hash and is left alone by every step. -/
theorem replay_agrees [DecidableEq β] {clock : Timestamp} {as : List (Act ρ β)} {s : State ρ β}
    (h : Run step OwnerGone (State.initial ρ β clock) as s) {r : ρ} {q : Request β}
    (hq : s.requests r = some q) :
    (∀ body, q.phase = .replayed body → s.Backed q.slot q.requestHash body) ∧
    (q.phase = .creating → s.Reserved q ∧ ∀ a t, OwnerGone s a → step s a = some t →
        ∀ q', t.requests r = some q' → q'.phase = .creating → t.table q.slot = s.table q.slot) := by
  have hs : ReplayInv s :=
    h.invariant (fun hs hg hst => replayInv_step hs hg hst) (replayInv_initial clock)
  refine ⟨(hs.sound r q hq).replay, fun hp => ⟨(hs.sound r q hq).reserved (by rw [hp]; rfl), ?_⟩⟩
  intro a t hg hst q' hq' hp'
  exact hs.row_kept hg hst hq hp hq' hp'

/-- A request, and a second one of the same payload that comes 31 s
later and replays its result. -/
def replayedOnce : List (Act (Fin 2) Nat) :=
  reserves 0 "h" ++ [.commitEffect 0 7, .loadRow 0, .complete 0] ++ takesOver 1 "h" ++ [.poll 1]

theorem replay_agrees_once : ∃ s, Run step OwnerGone (State.initial (Fin 2) Nat 0) replayedOnce s ∧
      s.requests 1 = some ⟨sampleSlot, "h", 201, .replayed (some 7)⟩ ∧
      s.Backed sampleSlot "h" (some 7) := by
  obtain ⟨s, h, hq⟩ : ∃ s, Run step OwnerGone (State.initial (Fin 2) Nat 0) replayedOnce s ∧
      s.requests 1 = some ⟨sampleSlot, "h", 201, .replayed (some 7)⟩ :=
    ⟨_, Run.of_execWithin rfl, rfl⟩
  exact ⟨s, h, hq, (replay_agrees h hq).1 (some 7) rfl⟩

/-- The first request needs more than 30 s, a second one with another
payload takes its reservation over, and the first completes the row. -/
def replayedOtherBody : List (Act (Fin 3) Nat) :=
  reserves 0 "h1" ++ takesOver 1 "h2" ++ [.commitEffect 0 7, .loadRow 0, .complete 0] ++
    takesOver 2 "h2" ++ [.poll 2]

/-- A third request with the second payload is answered with the result
of the first one, while the `create()` of the second one still runs and
its row is `completed`. -/
theorem replayed_other_body : ∃ s, Run step Free (State.initial (Fin 3) Nat 0) replayedOtherBody s ∧
      s.requests 2 = some ⟨sampleSlot, "h2", 201, .replayed (some 7)⟩ ∧
      ¬ s.Backed sampleSlot "h2" (some 7) ∧ s.requests 1 = some ⟨sampleSlot, "h2", 201, .creating⟩ ∧
      (s.table sampleSlot).map IdempotencyRow.status = some .completed := by
  obtain ⟨s, h, he, hq, hq', hrow⟩ :
      ∃ s, Run step Free (State.initial (Fin 3) Nat 0) replayedOtherBody s ∧
        s.effects = [⟨0, sampleSlot, "h1", 7⟩] ∧
        s.requests 2 = some ⟨sampleSlot, "h2", 201, .replayed (some 7)⟩ ∧
        s.requests 1 = some ⟨sampleSlot, "h2", 201, .creating⟩ ∧
        (s.table sampleSlot).map IdempotencyRow.status = some .completed :=
    ⟨_, Run.of_execWithin rfl, rfl, rfl, rfl, rfl⟩
  refine ⟨s, h, hq, ?_, hq', hrow⟩
  rintro ⟨e, hmem, -, hash, -⟩
  rw [he, List.mem_singleton] at hmem
  subst hmem
  revert hash
  decide

end StudioOS.Idempotency
