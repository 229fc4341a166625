import StudioOS.Library.Runs
import StudioOS.Outbox.Model

/-!
# Outbox — Order

"A later row is never sent before an earlier one that hasn't landed yet": true
of one listing, whose loop stops at the first row that has to wait
(`PassInv`).
-/

namespace StudioOS.Outbox

open List Runs

variable {id : String} {s : State}

/-- `_REPLAYABLE_TABLES`, row by row. -/
def Store.replayable (store : Store) : List (OutboxTable × PendingRow) :=
  (store.pending .events).map (OutboxTable.events, ·) ++
    (store.pending .mutations).map (OutboxTable.mutations, ·)

theorem mem_replayable {store : Store} {table : OutboxTable} {q : PendingRow} :
    (table, q) ∈ store.replayable ↔ q ∈ store.pending table ∧ table ≠ .markers := by
  cases table <;> simp [Store.replayable]

/-- A listing leaves out no row earlier than one it lists; an enqueue during
a pass is not dated before a row that the pass still has to send. -/
def inOrder (s : State) : Act → Bool
  | .begin limit eventsNow mutationsNow =>
    let ready := s.store.ready limit eventsNow mutationsNow
    s.store.replayable.all fun q =>
      decide (q ∈ ready) || ready.all fun r => r.2.createdAt ≤ q.2.createdAt
  | .enqueue table id _ _ now =>
    table = .markers || s.store.queued table id || s.passes.all fun
      | .running pass => pass.remaining.all fun r => r.2.createdAt ≤ now
      | _ => true
  | _ => true

def InOrder (s : State) (a : Act) : Prop := inOrder s a = true

instance (s : State) (a : Act) : Decidable (InOrder s a) := inferInstanceAs (Decidable (_ = true))

/-- The row that a step sends. -/
def State.sent (s : State) : Act → Option PendingRow
  | .send i =>
    match s.passes[i]? with
    | some (.running pass) => pass.remaining.head?.map Prod.snd
    | _ => none
  | _ => none

/-! ## The invariant of a pass -/

/-- The rows a pass has to send are sorted, and no pending row is earlier
than one of them without being one itself. -/
structure PassInv (store : Store) (remaining : List (OutboxTable × PendingRow)) : Prop where
  sorted : remaining.Pairwise fun a b => a.2.createdAt ≤ b.2.createdAt
  covers : ∀ table q, q ∈ store.pending table → table ≠ .markers →
    (∃ r, (table, r) ∈ remaining ∧ r.id = q.id ∧ r.createdAt = q.createdAt) ∨
      ∀ r ∈ remaining, r.2.createdAt ≤ q.createdAt

/-- Every row was there before, as far as the order goes. -/
def Within (store' store : Store) : Prop :=
  ∀ table q', q' ∈ store'.pending table →
    ∃ q ∈ store.pending table, q.id = q'.id ∧ q.createdAt = q'.createdAt

theorem Within.refl (store) : Within store store := fun _ q hq => ⟨q, hq, rfl, rfl⟩

variable {store store' : Store} {table : OutboxTable} {row : PendingRow}
  {remaining rest : List (OutboxTable × PendingRow)}

@[simp] theorem setPending_self (rows) :
    (store.setPending table rows).pending table = rows := Function.update_self ..

theorem setPending_of_ne {other} (h : other ≠ table) (rows) :
    (store.setPending table rows).pending other = store.pending other :=
  Function.update_of_ne h ..

theorem within_setPending {rows}
    (h : ∀ q' ∈ rows, ∃ q ∈ store.pending table, q.id = q'.id ∧ q.createdAt = q'.createdAt) :
    Within (store.setPending table rows) store := by
  intro other q' hq'
  by_cases hother : other = table
  · subst hother
    rw [setPending_self] at hq'
    exact h q' hq'
  · rw [setPending_of_ne hother] at hq'
    exact ⟨q', hq', rfl, rfl⟩

theorem markSucceeded_within (id) : Within (store.markSucceeded table id) store :=
  within_setPending fun q' hq' => ⟨q', (mem_filter.1 hq').1, rfl, rfl⟩

theorem markSucceeded_gone {q}
    (h : q ∈ (store.markSucceeded table id).pending table) : q.id ≠ id := by
  rw [Store.markSucceeded, setPending_self] at h
  simpa using (mem_filter.1 h).2

theorem markFailed_within (id error) (delay now) :
    Within (store.markFailed table id error delay now) store := by
  refine within_setPending fun q' hq' => ?_
  obtain ⟨q, hq, rfl⟩ := mem_map.1 hq'
  refine ⟨q, hq, ?_⟩
  split <;> exact ⟨rfl, rfl⟩

theorem moveToDeadLetter_within {error now}
    (h : store.moveToDeadLetter table id error now = .ok store') :
    Within store' store ∧ ∀ q ∈ store'.pending table, q.id ≠ id := by
  unfold Store.moveToDeadLetter at h
  split at h
  · rename_i hnone
    cases h
    exact ⟨.refl store, fun q hq => by simpa using List.find?_eq_none.1 hnone q hq⟩
  · split at h
    · cases h
    · cases h
      exact ⟨markSucceeded_within id, fun q hq => markSucceeded_gone hq⟩

theorem PassInv.within (h : PassInv store remaining) (hwithin : Within store' store) :
    PassInv store' remaining where
  sorted := h.sorted
  covers := by
    intro table q' hq' htable
    obtain ⟨q, hq, hid, hcreated⟩ := hwithin table q' hq'
    rw [← hid, ← hcreated]
    exact h.covers table q hq htable

theorem PassInv.tail (h : PassInv store ((table, row) :: rest)) (hwithin : Within store' store)
    (hgone : ∀ q ∈ store'.pending table, q.id ≠ row.id) : PassInv store' rest where
  sorted := (pairwise_cons.1 h.sorted).2
  covers := by
    intro other q hq hother
    rcases (h.within hwithin).covers other q hq hother with ⟨r, hr, hid, hcreated⟩ | hlater
    · rcases mem_cons.1 hr with heq | hr
      · cases heq
        exact absurd hid.symm (hgone q hq)
      · exact .inl ⟨r, hr, hid, hcreated⟩
    · exact .inr fun r hr => hlater r (.tail _ hr)

/-- **No pending row is earlier than the one a pass sends.** -/
theorem PassInv.head (h : PassInv store ((table, row) :: rest)) {q}
    (hq : q ∈ store.replayable) : row.createdAt ≤ q.2.createdAt := by
  obtain ⟨hpending, hmarkers⟩ := mem_replayable.1 hq
  rcases h.covers q.1 q.2 hpending hmarkers with ⟨r, hr, -, hcreated⟩ | hlater
  · rw [← hcreated]
    rcases mem_cons.1 hr with heq | hr
    · rw [show r = row from congrArg Prod.snd heq]
    · exact (pairwise_cons.1 h.sorted).1 _ hr
  · exact hlater _ mem_cons_self

theorem ready_inv {limit eventsNow mutationsNow}
    (h : ∀ q ∈ store.replayable, q ∈ store.ready limit eventsNow mutationsNow ∨
      ∀ r ∈ store.ready limit eventsNow mutationsNow, r.2.createdAt ≤ q.2.createdAt) :
    PassInv store (store.ready limit eventsNow mutationsNow) where
  sorted := by
    have : Std.Total fun a b : OutboxTable × PendingRow => a.2.createdAt ≤ b.2.createdAt :=
      ⟨fun a b => Nat.le_total _ _⟩
    have : IsTrans (OutboxTable × PendingRow) fun a b => a.2.createdAt ≤ b.2.createdAt :=
      ⟨fun _ _ _ => Nat.le_trans⟩
    exact pairwise_insertionSort _ _
  covers := by
    intro table q hq htable
    rcases h (table, q) (mem_replayable.2 ⟨hq, htable⟩) with hlisted | hlater
    · exact .inl ⟨q, hlisted, rfl, rfl⟩
    · exact .inr hlater

theorem PassInv.enqueue {payload extra serial now} (h : PassInv store remaining)
    (hlater : table = .markers ∨ store.queued table id = true ∨ ∀ r ∈ remaining,
      r.2.createdAt ≤ now) :
    PassInv (store.enqueue table id payload extra serial now) remaining where
  sorted := h.sorted
  covers := by
    intro other q hq hother
    unfold Store.enqueue at hq
    split at hq
    · exact h.covers other q hq hother
    rename_i hqueued
    by_cases heq : other = table
    · subst heq
      rw [setPending_self] at hq
      rcases mem_append.1 hq with hq | hq
      · exact h.covers other q hq hother
      rw [mem_singleton] at hq
      subst hq
      rcases hlater with hmarkers | hid | hlater
      · exact absurd hmarkers hother
      · exact absurd hid hqueued
      · exact .inr hlater
    · rw [setPending_of_ne heq] at hq
      exact h.covers other q hq hother

/-! ## The steps -/

/-- **The order invariant**, of every pass in its loop. -/
def OrderInv (s : State) : Prop :=
  ∀ pass, .running pass ∈ s.passes → PassInv s.store pass.remaining

theorem orderInv_initial : OrderInv State.initial := by
  intro pass h
  cases h

theorem next_running {outcome pass}
    (h : PassState.next rest outcome = .running pass) : pass.remaining = rest := by
  cases rest with
  | nil => cases h
  | cons r rest =>
    cases h
    rfl

theorem OrderInv.set (h : OrderInv s) {i state} (hwithin : Within store' s.store)
    (hstate : ∀ pass, state = .running pass → PassInv store' pass.remaining) {acknowledged} :
    OrderInv { s with store := store', passes := s.passes.set i state, acknowledged := acknowledged } := by
  intro pass hpass
  rcases mem_or_eq_of_mem_set hpass with hpass | heq
  · exact (h pass hpass).within hwithin
  · exact hstate pass heq.symm

theorem OrderInv.answer (h : OrderInv s) {i pass} (hpass : PassInv s.store ((table, row) :: rest))
    (result delay now) : OrderInv (s.answer i pass table row rest result delay now) := by
  unfold State.answer
  split
  · refine h.set (markSucceeded_within row.id) fun pass' hnext => ?_
    rw [next_running hnext]
    exact hpass.tail (markSucceeded_within row.id) fun q hq => markSucceeded_gone hq
  split
  · exact h.set (markFailed_within _ _ _ _) fun pass' hnext => by cases hnext
  dsimp only
  split
  · exact h.set (.refl _) fun pass' hnext => by cases hnext
  · rename_i store' hmoved
    obtain ⟨hwithin, hgone⟩ := moveToDeadLetter_within hmoved
    refine h.set hwithin fun pass' hnext => ?_
    rw [next_running hnext]
    exact hpass.tail hwithin hgone

theorem orderInv_step {t a} (h : OrderInv s) (hguard : InOrder s a)
    (hstep : step s a = some t) : OrderInv t := by
  cases a with
  | enqueue table id payload extra now =>
    cases hstep
    intro pass hpass
    refine (h pass hpass).enqueue ?_
    rw [InOrder, inOrder, Bool.or_eq_true, Bool.or_eq_true, decide_eq_true_eq, or_assoc] at hguard
    refine hguard.imp_right fun hguard => hguard.imp_right fun hall => ?_
    simpa using all_eq_true.1 hall _ hpass
  | begin limit eventsNow mutationsNow =>
    cases hstep
    intro pass hpass
    rcases mem_append.1 hpass with hpass | hpass
    · exact h pass hpass
    · rw [mem_singleton] at hpass
      rw [next_running hpass.symm]
      exact ready_inv (by simpa [InOrder, inOrder] using hguard)
  | send i =>
    simp only [step] at hstep
    split at hstep
    · rename_i pass hget
      split at hstep <;> cases hstep
      refine h.set (.refl _) fun pass' heq => ?_
      cases heq
      exact h pass (mem_of_getElem? hget)
    · cases hstep
  | answer i result delay now =>
    simp only [step] at hstep
    split at hstep
    · rename_i pass hget
      split at hstep
      · rename_i table row rest hsending hremaining
        cases hstep
        have hpass := h pass (mem_of_getElem? hget)
        rw [hremaining] at hpass
        exact h.answer hpass result delay now
      · cases hstep
    · cases hstep
  | cancel i =>
    simp only [step] at hstep
    split at hstep <;> cases hstep
    exact h.set (.refl _) fun pass' heq => by cases heq
  | restart =>
    cases hstep
    intro pass hpass
    obtain ⟨state, -, heq⟩ := mem_map.1 hpass
    cases state <;> cases heq

/-- **Rows go out in creation order**: in every run of enqueues, passes,
answers and restarts in which listings leave out no earlier row and enqueues
are not dated back, whatever a pass sends, no pending event or mutation was
created before it. -/
theorem replay_in_order {s t : State} {as : List Act} {a : Act} {row : PendingRow}
    (h : Run step InOrder State.initial as s) (hstep : step s a = some t)
    (hsent : s.sent a = some row) : ∀ q ∈ s.store.replayable, row.createdAt ≤ q.2.createdAt := by
  have hinv : OrderInv s :=
    h.invariant (fun hs hguard hfires => orderInv_step hs hguard hfires) orderInv_initial
  intro q hq
  cases a with
  | send i =>
    simp only [State.sent] at hsent
    split at hsent
    · rename_i pass hget
      have hpass := hinv pass (mem_of_getElem? hget)
      obtain ⟨⟨table, row'⟩, hhead, rfl⟩ := Option.map_eq_some_iff.1 hsent
      obtain ⟨rest, hremaining⟩ : ∃ rest, pass.remaining = (table, row') :: rest :=
        List.head?_eq_some_iff.1 hhead
      rw [hremaining] at hpass
      exact hpass.head hq
    · cases hsent
  | _ => cases hsent

def transportError : StudioApiError :=
  { errorClass := .transport, statusCode := 0, errorCode := none
    message := "timeout calling POST /api/v1/events", resource := none }

def enqueueEvent (id : String) (now : Timestamp) : Act := .enqueue .events id [] [] now

/-- Two events, the first of them delivered. -/
def deliveredRun : List Act :=
  [enqueueEvent "first" 10, enqueueEvent "second" 20, .begin 100 30 30, .send 0,
    .answer 0 (.ok ()) 0 31]

/-- What a step sends, with the rows that are pending then. -/
def sends (s : State) (a : Act) : Option (PendingRow × List (OutboxTable × PendingRow)) :=
  if (step s a).isSome then (s.sent a).map (·, s.store.replayable) else none

theorem sends_eq {a rows} (h : sends s a = some (row, rows)) :
    (∃ t, step s a = some t) ∧ s.sent a = some row ∧ rows = s.store.replayable := by
  unfold sends at h
  split at h
  · rename_i hsome
    obtain ⟨row', hsent, heq⟩ := Option.map_eq_some_iff.1 h
    cases heq
    exact ⟨Option.isSome_iff_exists.1 hsome, hsent, rfl⟩
  · cases h

theorem replay_in_order_second :
    ∃ s row, Run step InOrder State.initial deliveredRun s ∧ s.sent (.send 0) = some row ∧
      row.id = "second" ∧ ∀ q ∈ s.store.replayable, row.createdAt ≤ q.2.createdAt := by
  have h : ((execWithin step InOrder State.initial deliveredRun).bind (sends · (.send 0))).any
      (fun sent => sent.1.id = "second") = true := by decide
  obtain ⟨sent, hsent, hid⟩ := (Option.any_eq_true _ _).1 h
  obtain ⟨s, hs, hsent⟩ := Option.bind_eq_some_iff.1 hsent
  obtain ⟨⟨t, hstep⟩, hrow, -⟩ := sends_eq hsent
  have hrun := Run.of_execWithin hs
  exact ⟨s, sent.1, hrun, hrow, of_decide_eq_true hid, replay_in_order hrun hstep hrow⟩

/-- The first event has to wait for its backoff; the next pass does not list
it, and sends the second one. -/
def backoffRun : List Act :=
  [enqueueEvent "first" 10, enqueueEvent "second" 20, .begin 100 30 30, .send 0,
    .answer 0 (.error transportError) 1000 31, .begin 100 40 40]

/-- A page of one row a table: the second event is left out, and a later
mutation listed. -/
def pageRun : List Act :=
  [enqueueEvent "first" 10, enqueueEvent "second" 20, .enqueue .mutations "third" [] [] 30,
    .begin 1 40 40, .send 0, .answer 0 (.ok ()) 0 41]

/-- **A later row goes out before an earlier one has landed.** -/
theorem later_row_sent_first :
    (∃ s row, Run step Free State.initial backoffRun s ∧ s.sent (.send 1) = some row ∧
      (step s (.send 1)).isSome ∧ ∃ q ∈ s.store.replayable, q.2.createdAt < row.createdAt) ∧
    ∃ s row, Run step Free State.initial pageRun s ∧ s.sent (.send 0) = some row ∧
      (step s (.send 0)).isSome ∧ ∃ q ∈ s.store.replayable, q.2.createdAt < row.createdAt := by
  have hsends : ∀ as a, ((execWithin step Free State.initial as).bind (sends · a)).any
      (fun sent => sent.2.any fun q => q.2.createdAt < sent.1.createdAt) = true →
      ∃ s row, Run step Free State.initial as s ∧ s.sent a = some row ∧ (step s a).isSome ∧
        ∃ q ∈ s.store.replayable, q.2.createdAt < row.createdAt := by
    intro as a h
    obtain ⟨sent, hsent, hearlier⟩ := (Option.any_eq_true _ _).1 h
    obtain ⟨s, hs, hsent⟩ := Option.bind_eq_some_iff.1 hsent
    obtain ⟨⟨t, hstep⟩, hrow, hrows⟩ := sends_eq hsent
    obtain ⟨q, hq, hlt⟩ := any_eq_true.1 hearlier
    exact ⟨s, sent.1, Run.of_execWithin hs, hrow, by rw [hstep]; rfl, q, hrows ▸ hq,
      of_decide_eq_true hlt⟩
  exact ⟨hsends backoffRun (.send 1) (by decide), hsends pageRun (.send 0) (by decide)⟩

end StudioOS.Outbox
